import Mathlib.Data.Set.Card

/-!
A mailbox that keeps the newest item only. Each item put in posts one signal; a reader takes
a signal, clears the signals that are left and gives back the item that is newest then.
-/
namespace HailortDrivers.NewestMailbox

variable {α : Type}

/-- Items are numbered in the order they came; `owed` is a signal not yet posted. -/
@[ext] structure Mailbox (α : Type) where
  accepted : Nat
  since : Nat
  owed : Bool
  signals : Nat
  readers : Set α
  returned : List Nat

inductive Move (α : Type)
  | stay
  | accept
  | signal
  | take (reader : α)
  | clear (reader : α)
  | give (reader : α)
  | drop (reader : α)

namespace Mailbox

def accept (m : Mailbox α) : Mailbox α :=
  { m with
    accepted := m.accepted + 1
    owed := true }

def signal (m : Mailbox α) : Mailbox α :=
  { m with
    owed := false
    signals := m.signals + 1 }

def take (m : Mailbox α) (a : α) : Mailbox α :=
  { m with
    signals := m.signals - 1
    readers := insert a m.readers }

def clear (m : Mailbox α) : Mailbox α :=
  { m with signals := 0 }

def drop (m : Mailbox α) (a : α) : Mailbox α :=
  { m with readers := m.readers \ {a} }

def give (m : Mailbox α) (a : α) : Mailbox α :=
  { m.drop a with returned := m.returned ++ [m.accepted - 1] }

end Mailbox

inductive Moves (m : Mailbox α) : Move α → Mailbox α → Prop
  | stay : Moves m .stay m
  | accept (h : m.owed = false) : Moves m .accept m.accept
  | signal (h : m.owed = true) : Moves m .signal m.signal
  | take (a : α) (h : 0 < m.signals) (ha : a ∉ m.readers) : Moves m (.take a) (m.take a)
  | clear (a : α) (ha : a ∈ m.readers) : Moves m (.clear a) m.clear
  | give (a : α) (ha : a ∈ m.readers) : Moves m (.give a) (m.give a)
  | drop (a : α) (ha : a ∈ m.readers) : Moves m (.drop a) (m.drop a)

/-- Signals on their way, posted or taken. -/
noncomputable def Mailbox.pending (m : Mailbox α) : Nat :=
  m.owed.toNat + m.signals + m.readers.ncard

/-- A mailbox with nothing taken or returned yet. -/
structure Opened (m : Mailbox α) : Prop where
  since : m.since = m.accepted
  signals : m.signals = 0
  readers : m.readers = ∅
  returned : m.returned = []

theorem Opened.pending (h : Opened m) : m.pending = m.owed.toNat := by
  rw [Mailbox.pending, h.signals, h.readers, Set.ncard_empty, Nat.add_zero]

section
variable {m m' : Mailbox α} {a : α} {move : Move α}

theorem pending_eq_zero_iff (hfinite : m.readers.Finite) :
    m.pending = 0 ↔ m.owed = false ∧ m.signals = 0 ∧ ∀ a, a ∉ m.readers := by
  rw [Mailbox.pending, Nat.add_eq_zero_iff, Nat.add_eq_zero_iff, Set.ncard_eq_zero hfinite,
    Set.eq_empty_iff_forall_notMem, Bool.toNat_eq_zero, and_assoc]

theorem pending_accept (h : m.owed = false) : m.accept.pending = m.pending + 1 := by
  simp only [Mailbox.pending, Mailbox.accept, h, Bool.toNat_true, Bool.toNat_false]
  omega

theorem pending_signal (h : m.owed = true) : m.signal.pending = m.pending := by
  simp only [Mailbox.pending, Mailbox.signal, h, Bool.toNat_true, Bool.toNat_false]
  omega

theorem pending_take (hfinite : m.readers.Finite) (h : 0 < m.signals) (ha : a ∉ m.readers) :
    (m.take a).pending = m.pending := by
  simp only [Mailbox.pending, Mailbox.take, Set.ncard_insert_of_notMem ha hfinite]
  omega

theorem pending_drop (hfinite : m.readers.Finite) (ha : a ∈ m.readers) :
    (m.drop a).pending + 1 = m.pending := by
  have hcard := Set.ncard_sdiff_singleton_add_one ha hfinite
  simp only [Mailbox.pending, Mailbox.drop]
  omega

theorem pending_give (hfinite : m.readers.Finite) (ha : a ∈ m.readers) :
    (m.give a).pending + 1 = m.pending :=
  pending_drop hfinite ha

theorem pending_clear_le : m.clear.pending ≤ m.pending := by
  simp only [Mailbox.pending, Mailbox.clear]
  omega

theorem pending_pos (hfinite : m.readers.Finite) (ha : a ∈ m.readers) : 0 < m.pending :=
  Nat.add_pos_right _ ((Set.ncard_pos hfinite).mpr ⟨a, ha⟩)

/-- The reader that clears is itself on its way. -/
theorem pending_clear_pos (hfinite : m.readers.Finite) (ha : a ∈ m.readers) :
    0 < m.clear.pending :=
  pending_pos (m := m.clear) hfinite ha

/-- What any order of moves keeps: items come back in order, and no more often than there
were signals. The one more is a signal owed when the mailbox was opened. -/
structure Sound (m : Mailbox α) : Prop where
  finite : m.readers.Finite
  since_le : m.since ≤ m.accepted
  credit : m.returned.length + m.pending ≤ m.accepted - m.since + 1
  some_accepted : 0 < m.pending → 0 < m.accepted
  ordered : m.returned.Pairwise (· ≤ ·)
  below : ∀ n ∈ m.returned, n < m.accepted

theorem sound_of_opened (h : Opened m) (hsome : m.owed = true → 0 < m.accepted) : Sound m where
  finite := by
    rw [h.readers]
    exact Set.finite_empty
  since_le := h.since.le
  credit := by
    have := Bool.toNat_le m.owed
    rw [h.pending, h.returned, List.length_nil]
    omega
  some_accepted hpending := by
    have := Bool.toNat_le m.owed
    rw [h.pending] at hpending
    exact hsome (Bool.toNat_eq_one.mp (by omega))
  ordered := by
    rw [h.returned]
    exact List.Pairwise.nil
  below := by simp [h.returned]

theorem pairwise_concat {R : Nat → Nat → Prop} {l : List Nat} {n : Nat} (h : l.Pairwise R)
    (hlast : ∀ i ∈ l, R i n) : (l ++ [n]).Pairwise R := by
  rw [List.pairwise_append]
  exact ⟨h, List.pairwise_singleton _ _, fun i hi j hj => List.mem_singleton.mp hj ▸ hlast i hi⟩

theorem sound_step (hm : Sound m) (h : Moves m move m') : Sound m' := by
  obtain ⟨hfinite, hsince, hcredit, hsome, hordered, hbelow⟩ := hm
  cases h with
  | stay => exact ⟨hfinite, hsince, hcredit, hsome, hordered, hbelow⟩
  | accept h =>
    refine ⟨hfinite, Nat.le_succ_of_le hsince, ?_, fun _ => Nat.succ_pos _, hordered,
      fun n hn => Nat.lt_succ_of_lt (hbelow n hn)⟩
    rw [pending_accept h]
    simp only [Mailbox.accept]
    omega
  | signal h =>
    refine ⟨hfinite, hsince, ?_, ?_, hordered, hbelow⟩
    · rw [pending_signal h]
      exact hcredit
    · rw [pending_signal h]
      exact hsome
  | take a h ha =>
    refine ⟨hfinite.insert a, hsince, ?_, ?_, hordered, hbelow⟩
    · rw [pending_take hfinite h ha]
      exact hcredit
    · rw [pending_take hfinite h ha]
      exact hsome
  | clear a ha =>
    have hle := pending_clear_le (m := m)
    exact ⟨hfinite, hsince, Nat.le_trans (Nat.add_le_add_left hle _) hcredit,
      fun hpos => hsome (Nat.lt_of_lt_of_le hpos hle), hordered, hbelow⟩
  | give a ha =>
    have hpending := pending_give hfinite ha
    have hpos : 0 < m.accepted := hsome (hpending ▸ Nat.succ_pos _)
    refine ⟨hfinite.sdiff, hsince, ?_, fun _ => hpos, pairwise_concat hordered ?_, ?_⟩
    · simp only [Mailbox.give, Mailbox.drop, List.length_append,
        List.length_singleton] at hpending ⊢
      omega
    · exact fun i hi => Nat.le_sub_one_of_lt (hbelow i hi)
    · intro n hn
      rcases List.mem_append.mp hn with hn | hn
      · exact hbelow n hn
      · rw [List.mem_singleton.mp hn]
        exact Nat.sub_lt hpos Nat.one_pos
  | drop a ha =>
    have hpending := pending_drop hfinite ha
    refine ⟨hfinite.sdiff, hsince, ?_, fun hpos => hsome (by omega), hordered, hbelow⟩
    simp only [Mailbox.drop] at hpending ⊢
    omega

/-- The newest item came back, or a signal for it is on its way. -/
def KeepsNewest (m : Mailbox α) : Prop :=
  m.since < m.accepted → m.accepted - 1 ∈ m.returned ∨ 0 < m.pending

theorem keepsNewest_of_opened (h : Opened m) : KeepsNewest m :=
  fun hlt => absurd hlt (by rw [h.since]; exact Nat.lt_irrefl _)

theorem keepsNewest_step (hm : Sound m) (hnewest : KeepsNewest m) (h : Moves m move m')
    (hkept : ∀ a, move ≠ .drop a) : KeepsNewest m' := by
  intro hlt
  cases h with
  | stay => exact hnewest hlt
  | accept h =>
    right
    rw [pending_accept h]
    exact Nat.succ_pos _
  | signal h =>
    rw [pending_signal h]
    exact hnewest hlt
  | take a h ha =>
    rw [pending_take hm.finite h ha]
    exact hnewest hlt
  | clear a ha => exact .inr (pending_clear_pos hm.finite ha)
  | give a ha => exact .inl (List.mem_append_right _ (List.mem_singleton.mpr rfl))
  | drop a ha => exact absurd rfl (hkept a)

/-- At most one signal is on its way, and then for the newest item; all items that no signal
is on its way for came back once. -/
structure Once (m : Mailbox α) : Prop where
  pending_le : m.pending ≤ 1
  ordered : m.returned.Pairwise (· < ·)
  fresh : 0 < m.pending → ∀ n ∈ m.returned, n + 1 < m.accepted
  complete : ∀ n, m.since ≤ n → n < m.accepted → n ∈ m.returned ∨ n + 1 = m.accepted ∧ 0 < m.pending

theorem once_of_opened (h : Opened m) : Once m where
  pending_le := by
    rw [h.pending]
    exact Bool.toNat_le m.owed
  ordered := by
    rw [h.returned]
    exact List.Pairwise.nil
  fresh := by simp [h.returned]
  complete n hle hlt := absurd hlt (by rw [← h.since]; exact Nat.not_lt.mpr hle)

theorem once_step (hm : Sound m) (honce : Once m) (h : Moves m move m')
    (hspaced : move = .accept → m.pending = 0) (hkept : ∀ a, move ≠ .drop a) : Once m' := by
  obtain ⟨hle, hordered, hfresh, hcomplete⟩ := honce
  cases h with
  | stay => exact ⟨hle, hordered, hfresh, hcomplete⟩
  | accept h =>
    have hzero := hspaced rfl
    have hpending := pending_accept h
    refine ⟨by omega, hordered, fun _ n hn => Nat.succ_lt_succ (hm.below n hn), ?_⟩
    intro n hsince hlt
    rcases Nat.lt_succ_iff_lt_or_eq.mp hlt with hlt | rfl
    · exact .inl ((hcomplete n hsince hlt).resolve_right (by omega))
    · exact .inr ⟨rfl, by omega⟩
  | signal h =>
    have hpending := pending_signal h
    refine ⟨?_, hordered, ?_, ?_⟩ <;> rw [hpending]
    exacts [hle, hfresh, hcomplete]
  | take a h ha =>
    have hpending := pending_take hm.finite h ha
    refine ⟨?_, hordered, ?_, ?_⟩ <;> rw [hpending]
    exacts [hle, hfresh, hcomplete]
  | clear a ha =>
    have hpos := pending_clear_pos hm.finite ha
    exact ⟨Nat.le_trans pending_clear_le hle, hordered, fun _ => hfresh (pending_pos hm.finite ha),
      fun n hsince hlt => (hcomplete n hsince hlt).imp_right fun hn => ⟨hn.1, hpos⟩⟩
  | give a ha =>
    have hpending := pending_give hm.finite ha
    have hpos : 0 < m.pending := hpending ▸ Nat.succ_pos _
    refine ⟨by omega, pairwise_concat hordered ?_, fun h => absurd h (by omega), ?_⟩
    · exact fun i hi => Nat.lt_sub_of_add_lt (hfresh hpos i hi)
    · intro n hsince hlt
      rcases hcomplete n hsince hlt with hn | ⟨hn, -⟩
      · exact .inl (List.mem_append_left _ hn)
      · exact .inl (List.mem_append_right _ (List.mem_singleton.mpr (Nat.eq_sub_of_add_eq hn)))
  | drop a ha => exact absurd rfl (hkept a)

end

end HailortDrivers.NewestMailbox
