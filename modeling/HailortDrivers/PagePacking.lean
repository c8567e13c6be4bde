import Mathlib.Algebra.Order.Floor.Div
import Mathlib.Algebra.Order.Floor.Semiring
import Mathlib.Data.List.Basic
import Mathlib.GroupTheory.GroupAction.Ring
import Mathlib.Tactic.Common
import Mathlib.Tactic.Ring

/-!
Items of any sizes, cut into pages of at most `P` bytes and packed one page after another into
bins of `N` pages: page `g` is page `g % N` of bin `g / N`. Every byte of every item is held at
one position of one bin.
-/
namespace HailortDrivers.PagePacking

structure Page where
  item : ℕ
  index : ℕ
  size : ℕ
deriving DecidableEq

/-- The pages of `bytes` bytes of an item, from its page `first` on. -/
def pageRun (P item first bytes : ℕ) : List Page :=
  (List.range (bytes ⌈/⌉ P)).map fun j => ⟨item, first + j, min P (bytes - j * P)⟩

def pagesFrom (P : ℕ) : ℕ → List ℕ → List Page
  | _, [] => []
  | item, size :: sizes => pageRun P item 0 size ++ pagesFrom P (item + 1) sizes

/-- What a position of a bin holds: an item and a byte of it. -/
def heldAt (P N : ℕ) (ps : List Page) (bin position : ℕ) : Option (ℕ × ℕ) :=
  if position < N * P then
    (ps[bin * N + position / P]?).bind fun page =>
      if position % P < page.size then some (page.item, page.index * P + position % P) else none
  else none

section Runs
variable {P : ℕ} {item first bytes : ℕ}

@[simp] theorem length_pageRun : (pageRun P item first bytes).length = bytes ⌈/⌉ P := by
  simp [pageRun]

@[simp] theorem pageRun_zero : pageRun P item first 0 = [] := by
  simp [pageRun]

theorem getElem_pageRun {j : ℕ} (h : j < (pageRun P item first bytes).length) :
    (pageRun P item first bytes)[j] = ⟨item, first + j, min P (bytes - j * P)⟩ := by
  simp [pageRun]

theorem lt_ceilDiv_iff (hP : 0 < P) {j : ℕ} : j < bytes ⌈/⌉ P ↔ j * P < bytes := by
  rw [← not_le, ceilDiv_le_iff_le_mul hP, not_le, Nat.mul_comm]

theorem ceilDiv_mul_add (hP : 0 < P) (m r : ℕ) : (m * P + r) ⌈/⌉ P = m + r ⌈/⌉ P := by
  rw [Nat.ceilDiv_eq_add_pred_div, Nat.ceilDiv_eq_add_pred_div, Nat.add_assoc,
    Nat.add_sub_assoc (by omega), Nat.add_comm, Nat.add_mul_div_right _ _ hP, Nat.add_comm,
    Nat.add_sub_assoc (by omega)]

theorem mul_ceilDiv_self (hP : 0 < P) (m : ℕ) : m * P ⌈/⌉ P = m := by
  have h := ceilDiv_mul_add hP m 0
  rwa [Nat.add_zero, zero_ceilDiv, Nat.add_zero] at h

/-- A run that starts with whole pages goes on from the page after them. -/
theorem pageRun_append (hP : 0 < P) (m r : ℕ) :
    pageRun P item first (m * P + r) =
      pageRun P item first (m * P) ++ pageRun P item (first + m) r := by
  apply List.ext_getElem
  · simp only [List.length_append, length_pageRun]
    rw [ceilDiv_mul_add hP, mul_ceilDiv_self hP]
  · intro j hj _
    rw [length_pageRun, ceilDiv_mul_add hP] at hj
    rw [getElem_pageRun]
    by_cases hlt : j < m
    · have hle : (j + 1) * P ≤ m * P := Nat.mul_le_mul_right P hlt
      rw [Nat.succ_mul] at hle
      rw [List.getElem_append_left (by rwa [length_pageRun, mul_ceilDiv_self hP]),
        getElem_pageRun]
      congr 1
      omega
    · obtain ⟨i, rfl⟩ := Nat.exists_eq_add_of_le (Nat.le_of_not_lt hlt)
      rw [List.getElem_append_right (by rw [length_pageRun, mul_ceilDiv_self hP]; omega),
        getElem_pageRun]
      simp only [length_pageRun, mul_ceilDiv_self hP, Nat.add_sub_cancel_left, Nat.add_mul,
        Nat.add_assoc, Nat.add_sub_add_left]

theorem mem_pageRun (hP : 0 < P) {page : Page} (h : page ∈ pageRun P item first bytes) :
    page.item = item ∧ first ≤ page.index ∧ 0 < page.size ∧ page.size ≤ P := by
  obtain ⟨j, hj, rfl⟩ := List.mem_map.mp h
  have hlt := (lt_ceilDiv_iff hP).mp (List.mem_range.mp hj)
  exact ⟨rfl, Nat.le_add_right _ _, Nat.lt_min.mpr ⟨hP, Nat.sub_pos_of_lt hlt⟩,
    Nat.min_le_left _ _⟩

end Runs

section Items
variable {P : ℕ} {item : ℕ} {sizes : List ℕ}

theorem pagesFrom_append (sizes sizes' : List ℕ) :
    pagesFrom P item (sizes ++ sizes') =
      pagesFrom P item sizes ++ pagesFrom P (item + sizes.length) sizes' := by
  induction sizes generalizing item with
  | nil => rfl
  | cons size sizes ih =>
    rw [List.cons_append, pagesFrom, ih, pagesFrom, List.append_assoc, List.length_cons,
      Nat.add_right_comm, Nat.add_assoc item]

theorem length_pagesFrom : (pagesFrom P item sizes).length = (sizes.map (· ⌈/⌉ P)).sum := by
  induction sizes generalizing item with
  | nil => rfl
  | cons size sizes ih =>
    rw [pagesFrom, List.length_append, length_pageRun, ih, List.map_cons, List.sum_cons]

theorem mem_pagesFrom (hP : 0 < P) {page : Page} (h : page ∈ pagesFrom P item sizes) :
    item ≤ page.item ∧ 0 < page.size ∧ page.size ≤ P := by
  induction sizes generalizing item with
  | nil => cases h
  | cons size sizes ih =>
    rw [pagesFrom, List.mem_append] at h
    cases h with
    | inl h =>
      obtain ⟨rfl, -, hsize⟩ := mem_pageRun hP h
      exact ⟨le_rfl, hsize⟩
    | inr h =>
      obtain ⟨hle, hsize⟩ := ih h
      exact ⟨by omega, hsize⟩

theorem sum_take_succ {f : ℕ} (hf : f < sizes.length) :
    ((sizes.take (f + 1)).map (· ⌈/⌉ P)).sum =
      ((sizes.take f).map (· ⌈/⌉ P)).sum + sizes[f] ⌈/⌉ P := by
  rw [List.take_succ_eq_append_getElem hf, List.map_append, List.sum_append, List.map_singleton,
    List.sum_singleton]

/-- A page of an item is cut short if it is the last and the item does not fill its pages. -/
theorem short_iff (hP : 0 < P) {size g : ℕ} (hg : g < size ⌈/⌉ P) :
    min P (size - g * P) < P ↔ ¬ P ∣ size ∧ size ⌈/⌉ P = g + 1 := by
  have hlt := (lt_ceilDiv_iff hP).mp hg
  have hle : size ⌈/⌉ P ≤ g + 1 ↔ size ≤ (g + 1) * P := by
    rw [ceilDiv_le_iff_le_mul hP, Nat.mul_comm]
  have hmul : (g + 1) * P = g * P + P := Nat.succ_mul g P
  constructor
  · intro hshort
    refine ⟨?_, by omega⟩
    rintro ⟨q, rfl⟩
    rw [Nat.mul_comm P q] at hlt hle hshort
    have hleft := Nat.lt_of_mul_lt_mul_right hlt
    have hright : q < g + 1 := Nat.lt_of_mul_lt_mul_right (by omega : q * P < (g + 1) * P)
    omega
  · rintro ⟨hpart, hlast⟩
    have hne : size ≠ (g + 1) * P := by
      rintro rfl
      exact hpart (Nat.dvd_mul_left P (g + 1))
    have hend := hle.mp hlast.le
    omega

/-- A page is cut short where an item ends, unless the item fills its pages. -/
theorem partial_iff (hP : 0 < P) {g : ℕ} (hg : g < (pagesFrom P item sizes).length) :
    (pagesFrom P item sizes)[g].size < P ↔ ∃ f, ∃ hf : f < sizes.length,
      ¬ P ∣ sizes[f] ∧ ((sizes.take (f + 1)).map (· ⌈/⌉ P)).sum = g + 1 := by
  induction sizes generalizing item g with
  | nil => exact absurd hg (Nat.not_lt_zero g)
  | cons size sizes ih =>
    have hzero : (((size :: sizes).take (0 + 1)).map (· ⌈/⌉ P)).sum = size ⌈/⌉ P := by
      rw [Nat.zero_add, List.take_succ_cons, List.take_zero, List.map_singleton,
        List.sum_singleton]
    have hsucc (f : ℕ) : (((size :: sizes).take (f + 1 + 1)).map (· ⌈/⌉ P)).sum =
        size ⌈/⌉ P + ((sizes.take (f + 1)).map (· ⌈/⌉ P)).sum := by
      rw [List.take_succ_cons, List.map_cons, List.sum_cons]
    simp only [pagesFrom] at hg ⊢
    rw [List.length_append, length_pageRun] at hg
    by_cases hfirst : g < size ⌈/⌉ P
    · rw [List.getElem_append_left (by rwa [length_pageRun]), getElem_pageRun]
      simp only
      rw [short_iff hP hfirst]
      constructor
      · rintro ⟨hpart, hlast⟩
        exact ⟨0, Nat.succ_pos _, hpart, hzero.trans hlast⟩
      · rintro ⟨f, hf, hpart, hsum⟩
        cases f with
        | zero => exact ⟨hpart, hzero.symm.trans hsum⟩
        | succ f =>
          -- An item behind the first one ends on a later page.
          have hf' := Nat.lt_of_succ_lt_succ hf
          rw [hsucc, sum_take_succ hf'] at hsum
          have hpos : 0 < sizes[f] := by
            refine Nat.pos_of_ne_zero fun hempty => hpart ?_
            rw [List.getElem_cons_succ, hempty]
            exact Nat.dvd_zero P
          have hpages := (lt_ceilDiv_iff hP).mpr (by rwa [Nat.zero_mul] : 0 * P < sizes[f])
          omega
    · obtain ⟨g', rfl⟩ := Nat.exists_eq_add_of_le (Nat.le_of_not_lt hfirst)
      have hg' : g' < (pagesFrom P (item + 1) sizes).length := by omega
      rw [List.getElem_append_right (by rw [length_pageRun]; omega)]
      simp only [length_pageRun, Nat.add_sub_cancel_left]
      rw [ih hg']
      constructor
      · rintro ⟨f, hf, hpart, hsum⟩
        refine ⟨f + 1, Nat.succ_lt_succ hf, hpart, ?_⟩
        rw [hsucc, hsum, Nat.add_assoc]
      · rintro ⟨f, hf, hpart, hsum⟩
        cases f with
        | zero =>
          rw [hzero] at hsum
          omega
        | succ f =>
          rw [hsucc] at hsum
          exact ⟨f, Nat.lt_of_succ_lt_succ hf, hpart, by omega⟩

/-- The page of an item that a byte of it is on. -/
theorem exists_page (hP : 0 < P) {f : ℕ} (hf : f < sizes.length) {j : ℕ}
    (hj : j * P < sizes[f]) :
    ∃ g, ∃ h : g < (pagesFrom P item sizes).length,
      (pagesFrom P item sizes)[g] = ⟨item + f, j, min P (sizes[f] - j * P)⟩ := by
  have hsplit : sizes = sizes.take f ++ sizes[f] :: sizes.drop (f + 1) := by
    rw [List.getElem_cons_drop, List.take_append_drop]
  have hlen : (sizes.take f).length = f := by
    rw [List.length_take]
    omega
  have hpages : pagesFrom P item sizes = pagesFrom P item (sizes.take f) ++
      (pageRun P (item + f) 0 sizes[f] ++
        pagesFrom P (item + f + 1) (sizes.drop (f + 1))) := by
    conv => lhs; rw [hsplit, pagesFrom_append, hlen, pagesFrom]
  have hj' : j < (pageRun P (item + f) 0 sizes[f]).length := by
    rwa [length_pageRun, lt_ceilDiv_iff hP]
  refine ⟨(pagesFrom P item (sizes.take f)).length + j, ?_, ?_⟩
  · rw [hpages, List.length_append, List.length_append]
    omega
  · simp only [hpages]
    rw [List.getElem_append_right (by omega), List.getElem_append_left (by omega)]
    simp only [Nat.add_sub_cancel_left, getElem_pageRun, Nat.zero_add]

theorem pagesFrom_pairwise (hP : 0 < P) :
    (pagesFrom P item sizes).Pairwise
      fun p q => p.item < q.item ∨ p.item = q.item ∧ p.index < q.index := by
  induction sizes generalizing item with
  | nil => exact List.Pairwise.nil
  | cons size sizes ih =>
    rw [pagesFrom, List.pairwise_append]
    refine ⟨?_, ih, ?_⟩
    · rw [pageRun, List.pairwise_map]
      exact List.pairwise_lt_range.imp fun hlt => Or.inr ⟨rfl, by simpa using hlt⟩
    · intro p hp q hq
      obtain ⟨rfl, -⟩ := mem_pageRun hP hp
      exact Or.inl (mem_pagesFrom hP hq).1

/-- No page of an item occurs twice. -/
theorem page_unique (hP : 0 < P) {g g' : ℕ} (h : g < (pagesFrom P item sizes).length)
    (h' : g' < (pagesFrom P item sizes).length)
    (hitem : (pagesFrom P item sizes)[g].item = (pagesFrom P item sizes)[g'].item)
    (hindex : (pagesFrom P item sizes)[g].index = (pagesFrom P item sizes)[g'].index) :
    g = g' := by
  have hsorted := List.pairwise_iff_getElem.mp
    (pagesFrom_pairwise hP : (pagesFrom P item sizes).Pairwise _)
  rcases Nat.lt_trichotomy g g' with hlt | heq | hlt
  · have := hsorted g g' h h' hlt
    omega
  · exact heq
  · have := hsorted g' g h' h hlt
    omega

end Items

section Bins
variable {P N : ℕ} {ps : List Page}

theorem heldAt_eq_some (hP : 0 < P) (hN : 0 < N) {bin position f k : ℕ} :
    heldAt P N ps bin position = some (f, k) ↔
      ∃ g, ∃ h : g < ps.length, g / N = bin ∧ g % N * P ≤ position ∧
        position < g % N * P + min P ps[g].size ∧ ps[g].item = f ∧
        ps[g].index * P + (position - g % N * P) = k := by
  constructor
  · intro h
    unfold heldAt at h
    split at h
    case isFalse => cases h
    case isTrue hpos =>
    obtain ⟨page, hpage, h⟩ := Option.bind_eq_some_iff.mp h
    obtain ⟨hg, hget⟩ := List.getElem?_eq_some_iff.mp hpage
    split at h
    case isFalse => cases h
    case isTrue hsize =>
    cases h
    have hslot : position / P < N := Nat.div_lt_of_lt_mul (by rwa [Nat.mul_comm])
    have hmod : (bin * N + position / P) % N = position / P := by
      rw [Nat.mul_comm, Nat.mul_add_mod, Nat.mod_eq_of_lt hslot]
    have hdiv : (bin * N + position / P) / N = bin := by
      rw [Nat.mul_comm, Nat.mul_add_div hN, Nat.div_eq_of_lt hslot, Nat.add_zero]
    have hsplit := Nat.div_add_mod position P
    rw [Nat.mul_comm] at hsplit
    have hlt := Nat.mod_lt position hP
    refine ⟨_, hg, hdiv, ?_, ?_, ?_, ?_⟩
    · rw [hmod]
      omega
    · rw [hmod, hget]
      omega
    · rw [hget]
    · rw [hmod, hget]
      omega
  · rintro ⟨g, hg, rfl, hle, hlt, rfl, rfl⟩
    have hslot := Nat.mod_lt g hN
    obtain ⟨o, rfl⟩ := Nat.exists_eq_add_of_le hle
    have ho : o < P := by omega
    have hmod : (g % N * P + o) % P = o := by
      rw [Nat.mul_comm, Nat.mul_add_mod, Nat.mod_eq_of_lt ho]
    have hdiv : (g % N * P + o) / P = g % N := by
      rw [Nat.mul_comm, Nat.mul_add_div hP, Nat.div_eq_of_lt ho, Nat.add_zero]
    have hbound : g % N * P + o < N * P := by
      have hmul : (g % N + 1) * P ≤ N * P := Nat.mul_le_mul_right P hslot
      rw [Nat.succ_mul] at hmul
      omega
    have hg' : g / N * N + g % N = g := Nat.div_add_mod' g N
    rw [heldAt, if_pos hbound, hdiv, hg', List.getElem?_eq_getElem hg, Option.bind_some, hmod,
      if_pos (by omega), Nat.add_sub_cancel_left]

/-- Every byte of every item is held somewhere. -/
theorem exists_held (hP : 0 < P) (hN : 0 < N) {sizes : List ℕ} {f k : ℕ} (hf : f < sizes.length)
    (hk : k < sizes[f]) :
    ∃ g, ∃ h : g < (pagesFrom P 0 sizes).length,
      (pagesFrom P 0 sizes)[g] = ⟨f, k / P, min P (sizes[f] - k / P * P)⟩ ∧
      heldAt P N (pagesFrom P 0 sizes) (g / N) (g % N * P + k % P) = some (f, k) := by
  have hsplit := Nat.div_add_mod' k P
  have hmod := Nat.mod_lt k hP
  obtain ⟨g, hg, hpage⟩ : ∃ g, ∃ h : g < (pagesFrom P 0 sizes).length,
      (pagesFrom P 0 sizes)[g] = ⟨0 + f, k / P, min P (sizes[f] - k / P * P)⟩ :=
    exists_page hP hf (by omega)
  rw [Nat.zero_add] at hpage
  refine ⟨g, hg, hpage, ?_⟩
  rw [heldAt_eq_some hP hN]
  refine ⟨g, hg, rfl, Nat.le_add_right _ _, ?_, by rw [hpage], ?_⟩
  · rw [hpage]
    simp only
    omega
  · rw [hpage]
    simp only
    omega

/-- No byte of an item is held twice. -/
theorem held_unique (hP : 0 < P) (hN : 0 < N) {sizes : List ℕ} {f k bin bin' position position' : ℕ}
    (h : heldAt P N (pagesFrom P 0 sizes) bin position = some (f, k))
    (h' : heldAt P N (pagesFrom P 0 sizes) bin' position' = some (f, k)) :
    bin = bin' ∧ position = position' := by
  obtain ⟨g, hg, rfl, hle, hlt, hitem, hk⟩ := (heldAt_eq_some hP hN).mp h
  obtain ⟨g', hg', rfl, hle', hlt', hitem', hk'⟩ := (heldAt_eq_some hP hN).mp h'
  have hindex {i i' o o' : ℕ} (ho : o < P) (ho' : o' < P) (heq : i * P + o = i' * P + o') :
      i = i' := by
    have hdiv := congrArg (· / P) heq
    rwa [Nat.mul_comm, Nat.mul_add_div hP, Nat.div_eq_of_lt ho, Nat.mul_comm i',
      Nat.mul_add_div hP, Nat.div_eq_of_lt ho', Nat.add_zero, Nat.add_zero] at hdiv
  have hsame := hindex (by omega) (by omega) (hk.trans hk'.symm)
  obtain rfl := page_unique hP hg hg' (hitem.trans hitem'.symm) hsame
  exact ⟨rfl, by omega⟩

/-- A page number has one bin and one place in it. -/
theorem slot_inj {bin bin' q q' : ℕ} (hq : q < N) (hq' : q' < N)
    (h : bin * N + q = bin' * N + q') : bin = bin' ∧ q = q' := by
  have hdiv := congrArg (· / N) h
  rw [Nat.mul_comm, Nat.mul_add_div (by omega), Nat.div_eq_of_lt hq, Nat.mul_comm bin',
    Nat.mul_add_div (by omega), Nat.div_eq_of_lt hq', Nat.add_zero, Nat.add_zero] at hdiv
  subst hdiv
  exact ⟨rfl, by omega⟩

/-- Pages put behind others that end in a bin with room for them hold their bytes there. -/
theorem heldAt_append (hP : 0 < P) {item first bytes : ℕ}
    (hroom : ps.length % N + bytes ⌈/⌉ P ≤ N) (bin position : ℕ) :
    heldAt P N (ps ++ pageRun P item first bytes) bin position =
      if bin = ps.length / N ∧ ps.length % N * P ≤ position ∧
          position < ps.length % N * P + bytes then
        some (item, first * P + (position - ps.length % N * P))
      else heldAt P N ps bin position := by
  have hbytes : bytes ≤ bytes ⌈/⌉ P * P := by
    rw [Nat.mul_comm]
    exact (ceilDiv_le_iff_le_mul hP).mp le_rfl
  have hlen := Nat.div_add_mod' ps.length N
  have hsplit := Nat.div_add_mod' position P
  have hlt := Nat.mod_lt position hP
  by_cases hpos : position < N * P
  case neg =>
    have hend : (ps.length % N + bytes ⌈/⌉ P) * P ≤ N * P := Nat.mul_le_mul_right P hroom
    rw [Nat.add_mul] at hend
    rw [heldAt, if_neg hpos, if_neg (by omega), heldAt, if_neg hpos]
  case pos =>
  have hslot : position / P < N := Nat.div_lt_of_lt_mul (by rwa [Nat.mul_comm])
  rw [heldAt, if_pos hpos, heldAt, if_pos hpos, List.getElem?_append]
  by_cases hold : bin * N + position / P < ps.length
  · -- The page was there before, so the new pages are behind it.
    rw [if_pos hold, if_neg]
    rintro ⟨rfl, hle, -⟩
    have hq : ps.length % N ≤ position / P := (Nat.le_div_iff_mul_le hP).mpr hle
    omega
  · rw [if_neg hold, List.getElem?_eq_none (Nat.le_of_not_lt hold), Option.bind_none]
    obtain ⟨j, hj⟩ := Nat.exists_eq_add_of_le (Nat.le_of_not_lt hold)
    rw [hj, Nat.add_sub_cancel_left]
    by_cases hnew : j < bytes ⌈/⌉ P
    · obtain ⟨rfl, hq⟩ := slot_inj hslot (by omega : ps.length % N + j < N)
        (by omega : bin * N + position / P = ps.length / N * N + (ps.length % N + j))
      rw [hq, Nat.add_mul] at hsplit
      rw [List.getElem?_eq_getElem (by rwa [length_pageRun]), Option.bind_some, getElem_pageRun]
      simp only [true_and]
      congr 1
      · refine propext ⟨fun h => ?_, fun h => ?_⟩
        · omega
        · omega
      · congr 2
        rw [Nat.add_mul]
        omega
    · rw [List.getElem?_eq_none (by rw [length_pageRun]; omega), Option.bind_none, if_neg]
      rintro ⟨rfl, hle, hend⟩
      have hq : position / P = ps.length % N + j := by omega
      have hmul : bytes ⌈/⌉ P * P ≤ j * P := Nat.mul_le_mul_right P (Nat.le_of_not_lt hnew)
      rw [hq, Nat.add_mul] at hsplit
      omega

end Bins

end HailortDrivers.PagePacking
