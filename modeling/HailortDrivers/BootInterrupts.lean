import HailortDrivers.BootDelivery

/-!
Which descriptors of a batch interrupt the host: the last of each channel that is used, unless
a file other than the last ends there in the middle of a page.
-/
namespace HailortDrivers.BootInterrupts
open VdmaTypes PagePacking FirmwareLoading BootProgramming BootDescriptors BootRounds BootBatch

/-- Of the descriptors that are programmed, the last and no other interrupts the host. -/
def InterruptsOnce (channel : HailoPcieBootDmaChannelState) : Prop :=
  ∃ last, last + 1 = channel.descProgramNum.toNat ∧ ∀ d < channel.descProgramNum.toNat,
    raisesHostInterrupt (channel.hostDescriptorsBuffer.descList d) = true ↔ d = last

/-- There are files, and each but the last fills its last page if that is the last page of a
channel. -/
structure ChannelsEndWhole (sizes : List Nat) : Prop where
  nonempty : sizes ≠ []
  whole : ∀ f size, f + 1 < sizes.length → sizes[f]? = some size →
    65535 ∣ descsOf (sizes.take (f + 1)) → hailoPciOverVdmaPageSize ∣ size

theorem raisesAt_iff {n g : Nat} {page : Page} :
    raisesAt true n g page = true ↔ (g + 1) % 65535 = 0 ∧ page.size = 512 ∨ g + 1 = n := by
  simp [raisesAt]

section Programmed
variable {addressOf : Nat → Nat} {s₀ s : BootState} {ps : List Page}

theorem raisesHostInterrupt_iff (h : Programmed addressOf s₀ ps true s) {c d : Nat}
    (hd : d < 65535) (hg : c * 65535 + d < ps.length) :
    raisesHostInterrupt ((s.channels c).hostDescriptorsBuffer.descList d) = true ↔
      d + 1 = 65535 ∧ ps[c * 65535 + d].size = 512 ∨ c * 65535 + d + 1 = ps.length := by
  have hpage := (h.page _ hg).interrupt
  have hdiv : (c * 65535 + d) / 65535 = c := by omega
  have hmod : (c * 65535 + d) % 65535 = d := by omega
  have hend : (c * 65535 + d + 1) % 65535 = 0 ↔ d + 1 = 65535 := by omega
  rw [hdiv, hmod] at hpage
  rw [hpage, raisesAt_iff, hend]

/-- A channel that ends with a page cut short, with more behind it, never interrupts. -/
theorem quiet_of_short (h : Programmed addressOf s₀ ps true s) {c : Nat} (hc : c < 8)
    (hmore : (c + 1) * 65535 < ps.length) (hlast : c * 65535 + 65534 < ps.length)
    (hshort : ps[c * 65535 + 65534].size < 512) :
    ∀ d < (s.channels c).descProgramNum.toNat,
      raisesHostInterrupt ((s.channels c).hostDescriptorsBuffer.descList d) = false := by
  intro d hd
  rw [h.count c hc] at hd
  have hd' := (Nat.lt_min.mp hd).1
  rw [Bool.eq_false_iff, ne_eq, raisesHostInterrupt_iff h hd'
    (Nat.add_lt_of_lt_sub' (Nat.lt_min.mp hd).2)]
  rintro (⟨hend, hwhole⟩ | hfinal)
  · obtain rfl : d = 65534 := by omega
    omega
  · omega

theorem interruptsOnce_iff_whole (h : Programmed addressOf s₀ ps true s) {c : Nat} (hc : c < 8)
    (hused : c * 65535 < ps.length) :
    InterruptsOnce (s.channels c) ↔ ((c + 1) * 65535 < ps.length →
      ∀ hlast : c * 65535 + 65534 < ps.length, ps[c * 65535 + 65534].size = 512) := by
  have hcount := h.count c hc
  rw [InterruptsOnce, hcount]
  constructor
  · rintro ⟨last, hlast, honly⟩ hmore hin
    obtain rfl : last = 65534 := by omega
    have hraises := (honly 65534 (hlast ▸ Nat.lt_succ_self _)).mpr rfl
    cases (raisesHostInterrupt_iff h (by decide) hin).mp hraises with
    | inl hwhole => exact hwhole.2
    | inr hfinal => omega
  · intro hwhole
    refine ⟨min 65535 (ps.length - c * 65535) - 1, by omega, fun d hd => ?_⟩
    obtain ⟨hd', hrest⟩ := Nat.lt_min.mp hd
    have hin := Nat.add_lt_of_lt_sub' hrest
    rw [raisesHostInterrupt_iff h hd' hin]
    constructor
    · rintro (⟨hend, -⟩ | hfinal)
      · omega
      · omega
    · intro hlast
      by_cases hmore : (c + 1) * 65535 < ps.length
      · obtain rfl : d = 65534 := by omega
        exact Or.inl ⟨rfl, hwhole hmore _⟩
      · exact Or.inr (by omega)

end Programmed

section Sizes
variable {sizes : List Nat}

theorem descsOf_pos (hne : sizes ≠ []) (hpos : ∀ size ∈ sizes, 0 < size) : 0 < descsOf sizes := by
  cases sizes with
  | nil => exact absurd rfl hne
  | cons size sizes =>
    have hsize := hpos size List.mem_cons_self
    have hpages := (lt_ceilDiv_iff (P := 512) (by decide)).mpr
      (by rwa [Nat.zero_mul] : 0 * 512 < size)
    rw [descsOf, List.map_cons, List.sum_cons]
    omega

/-- The files up to one that is not the last have fewer descriptors than all. -/
theorem descsOf_take_lt (hpos : ∀ size ∈ sizes, 0 < size) {k : Nat} (hk : k < sizes.length) :
    descsOf (sizes.take k) < descsOf sizes := by
  have hsplit : descsOf sizes = descsOf (sizes.take k) + descsOf (sizes.drop k) := by
    rw [descsOf, descsOf, descsOf, ← List.sum_append, ← List.map_append, List.take_append_drop]
  have hrest : 0 < descsOf (sizes.drop k) := by
    refine descsOf_pos ?_ fun size hsize => hpos size (List.mem_of_mem_drop hsize)
    rw [ne_eq, List.drop_eq_nil_iff]
    omega
  omega

end Sizes

section Batch
variable {addressOf : Nat → Nat} {s₀ s : BootState} {sizes : List Nat}

theorem usesChannel_one (c : Nat) : usesChannel 1 c = decide (c = 0) := by
  rw [usesChannel]
  change (2 ^ 0).testBit c = _
  rw [Nat.testBit_two_pow]
  exact decide_eq_decide.mpr eq_comm

/-- Channel 0 counts as used from the start, the others once a descriptor goes to them. -/
theorem usesChannel_iff {ps : List Page} {final : Bool} (h : Programmed addressOf s₀ ps final s)
    (hbitmap : s₀.bootUsedChannelBitmap = 1) {c : Nat} :
    usesChannel s.bootUsedChannelBitmap c = true ↔ c ≤ (ps.length - 1) / 65535 := by
  rw [h.bitmap, hbitmap, usesChannel_one, ← Bool.decide_or, decide_eq_true_eq]
  omega

theorem interruptsOnce_iff (h : Programmed addressOf s₀ (pagesFrom 512 0 sizes) (!sizes.isEmpty) s)
    (hbitmap : s₀.bootUsedChannelBitmap = 1) (hpos : ∀ size ∈ sizes, 0 < size)
    (hroom : descsOf sizes ≤ 8 * 65535) :
    (∀ c, usesChannel s.bootUsedChannelBitmap c = true → InterruptsOnce (s.channels c)) ↔
      ChannelsEndWhole sizes := by
  have hlen : (pagesFrom 512 0 sizes).length = descsOf sizes := length_pagesFrom
  by_cases hne : sizes = []
  · -- No descriptor of channel 0 is programmed, and its bit is set.
    subst hne
    constructor
    · intro honce
      obtain ⟨last, hlast, -⟩ := honce 0 ((usesChannel_iff h hbitmap).mpr (Nat.zero_le _))
      rw [h.count 0 (by decide)] at hlast
      cases hlast
    · exact fun hends => absurd rfl hends.nonempty
  have hsome : (!sizes.isEmpty) = true := by
    rw [Bool.not_eq_true', List.isEmpty_eq_false_iff]
    exact hne
  rw [hsome] at h
  have hn := descsOf_pos hne hpos
  constructor
  · intro honce
    refine ⟨hne, fun f size hf hsize hlast => ?_⟩
    obtain ⟨hf', rfl⟩ := List.getElem?_eq_some_iff.mp hsize
    by_contra hpart
    have hbefore := descsOf_take_lt hpos hf
    have htake : 0 < descsOf (sizes.take (f + 1)) := by
      refine descsOf_pos ?_ fun size hsize => hpos size (List.mem_of_mem_take hsize)
      intro hnil
      cases List.take_eq_nil_iff.mp hnil with
      | inl hzero => cases hzero
      | inr hnil => exact hne hnil
    obtain ⟨q, hq⟩ := hlast
    obtain ⟨c, rfl⟩ : ∃ c, q = c + 1 := Nat.exists_eq_succ_of_ne_zero (by rintro rfl; omega)
    have honce' := honce c ((usesChannel_iff h hbitmap).mpr (by omega))
    have hwhole :=
      (interruptsOnce_iff_whole h (by omega) (by omega)).mp honce' (by omega) (by omega)
    have hin : c * 65535 + 65534 < (pagesFrom 512 0 sizes).length := by omega
    have hshort := (partial_iff (by decide) hin).mpr ⟨f, hf', hpart, hq.trans (by omega)⟩
    omega
  · intro hends c hc
    rw [usesChannel_iff h hbitmap, hlen] at hc
    refine (interruptsOnce_iff_whole h (by omega) (by omega)).mpr fun hmore hin => ?_
    by_contra hsize
    have hle := (mem_pagesFrom (by decide) (List.getElem_mem hin)).2.2
    obtain ⟨f, hf, hpart, hsum⟩ := (partial_iff (by decide) hin).mp (by omega)
    by_cases hlast : f + 1 < sizes.length
    · refine hpart (hends.whole f _ hlast (List.getElem?_eq_getElem hf) ⟨c + 1, ?_⟩)
      exact hsum.trans (by omega)
    · rw [List.take_of_length_le (by omega)] at hsum
      have htotal : descsOf sizes = c * 65535 + 65534 + 1 := hsum
      omega

end Batch

end HailortDrivers.BootInterrupts
