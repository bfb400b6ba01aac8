/-
Pages of a list, and lists kept in the order of a key: a list that is ordered and has the members of a part
of another ordered list is that part, and the first elements of a union of ordered parts are those of the union
of the first elements of each.
-/
import Mathlib.Data.List.Sort

namespace Paging

variable {α β : Type}

/-! ## Pages -/

/-- What is left of a list from an offset on, up to a limit. -/
def window (lim ofst : Nat) (l : List α) : List α := (l.drop ofst).take lim

theorem length_window_le (lim ofst : Nat) (l : List α) : (window lim ofst l).length ≤ lim := List.length_take_le _ _

theorem length_window (lim ofst : Nat) (l : List α) : (window lim ofst l).length = min lim (l.length - ofst) := by
  unfold window
  rw [List.length_take, List.length_drop]

theorem window_eq_nil {lim ofst : Nat} {l : List α} (h : l.length ≤ ofst) : window lim ofst l = [] := by
  unfold window
  rw [List.drop_eq_nil_of_le h, List.take_nil]

/-- The pages before an offset are what stands before it. -/
theorem pages_flatMap (l : List α) (n N : Nat) :
    (List.range N).flatMap (fun k => window n (k * n) l) = l.take (N * n) := by
  induction N with
  | zero => simp
  | succ N ih =>
    rw [List.range_succ, List.flatMap_append, ih, Nat.succ_mul, List.take_add]
    simp [window]

/-- Enough pages list the whole. -/
theorem pages_flatMap_eq {l : List α} {n N : Nat} (h : l.length ≤ N * n) :
    (List.range N).flatMap (fun k => window n (k * n) l) = l := by
  rw [pages_flatMap, List.take_of_length_le h]

/-- The number of pages that hold something. -/
theorem exists_pages {n : Nat} (hn : 0 < n) (m : Nat) : ∃ N, m ≤ N * n ∧ ∀ k, k < N ↔ k * n < m := by
  have hlow := Nat.lt_div_mul_add (a := m + n - 1) hn
  refine ⟨(m + n - 1) / n, by omega, fun k => ⟨fun hk => ?_, fun hk => ?_⟩⟩
  · have h := (Nat.le_div_iff_mul_le hn).mp (Nat.succ_le_of_lt hk)
    rw [Nat.succ_mul] at h
    omega
  · refine Nat.lt_of_succ_le ((Nat.le_div_iff_mul_le hn).mpr ?_)
    rw [Nat.succ_mul]
    omega

/-- A number of pages is short of a page where one of them is empty. -/
theorem length_pages_add_le {page : Nat → List α} {n N k : Nat} (hshort : ∀ j < N, (page j).length ≤ n) (hk : k < N)
    (hempty : page k = []) : ((List.range N).flatMap page).length + n ≤ N * n := by
  have hall : ∀ M ≤ N, ((List.range M).flatMap page).length ≤ M * n := by
    intro M
    induction M with
    | zero => simp
    | succ M ih =>
      intro hM
      have h := ih (by omega)
      have hpage := hshort M (by omega)
      rw [List.range_succ, List.flatMap_append, List.length_append, Nat.succ_mul]
      simpa using Nat.add_le_add h hpage
  have hfrom : ∀ M, k < M → M ≤ N → ((List.range M).flatMap page).length + n ≤ M * n := by
    intro M hkM
    induction M, hkM using Nat.le_induction with
    | base =>
      intro hM
      have h := hall k (by omega)
      rw [List.range_succ, List.flatMap_append, List.length_append, Nat.succ_mul]
      simpa [hempty] using h
    | succ M hkM ih =>
      intro hM
      have h := ih (by omega)
      have hpage := hshort M (by omega)
      rw [List.range_succ, List.flatMap_append, List.length_append, Nat.succ_mul]
      simp only [List.flatMap_cons, List.flatMap_nil, List.append_nil]
      omega
  exact hfrom N hk le_rfl

/-! ## The first elements of a part -/

/-- A part that keeps the first elements has the same first elements. -/
theorem take_filter {l : List α} {m : Nat} {q : α → Bool} (h : ∀ x ∈ l.take m, q x = true) :
    (l.filter q).take m = l.take m := by
  have hsplit : l.filter q = l.take m ++ (l.drop m).filter q := by
    conv => lhs; rw [← List.take_append_drop m l, List.filter_append, List.filter_eq_self.mpr h]
  rw [hsplit]
  by_cases hlen : m ≤ l.length
  · rw [List.take_append_of_le_length (by rw [List.length_take, Nat.min_eq_left hlen]), List.take_take, Nat.min_self]
  · rw [List.drop_eq_nil_of_le (by omega), List.filter_nil, List.append_nil, List.take_take, Nat.min_self]

/-- A part that keeps what stands before a page and on it has the same page. -/
theorem window_filter {l : List α} {lim ofst : Nat} {q : α → Bool} (h : ∀ x ∈ l.take (ofst + lim), q x = true) :
    window lim ofst (l.filter q) = window lim ofst l := by
  unfold window
  rw [List.take_drop, List.take_drop, take_filter h]

/-- What a part has before an offset is not on the page there. -/
theorem notMem_window_filter {l : List α} (hl : l.Nodup) {lim ofst m : Nat} {q : α → Bool} {y : α}
    (hlen : ((l.take m).filter q).length ≤ ofst) (hy : y ∈ l.take m) : y ∉ window lim ofst (l.filter q) := by
  intro hin
  have hsplit : l.filter q = (l.take m).filter q ++ (l.drop m).filter q := by
    rw [← List.filter_append, List.take_append_drop]
  have hlate : y ∈ (l.filter q).drop ofst := List.mem_of_mem_take hin
  rw [hsplit, List.drop_append, List.drop_eq_nil_of_le hlen, List.nil_append] at hlate
  have hout : y ∈ l.drop m := List.mem_of_mem_filter (List.mem_of_mem_drop hlate)
  rw [← List.take_append_drop m l] at hl
  exact (List.nodup_append.mp hl).2.2 _ hy _ hout rfl

/-- A part that leaves out an element before a place moves what follows up by one. -/
theorem length_filter_take_succ_le {l : List α} {m : Nat} {q : α → Bool} {x : α} (hx : x ∈ l.take m) (hq : q x = false) :
    ((l.take (m + 1)).filter q).length ≤ m := by
  have hlt : ((l.take (m + 1)).filter q).length < (l.take (m + 1)).length := by
    refine lt_of_le_of_ne (List.length_filter_le _ _) fun he => ?_
    have hkept := List.length_filter_eq_length_iff.mp he x (List.take_subset_take_left l (Nat.le_succ _) hx)
    rw [hq] at hkept
    cases hkept
  have := List.length_take_le (m + 1) l
  omega

/-- An element among the first of a list is among the first of every part it belongs to. -/
theorem mem_take_filter {l : List α} {m : Nat} {p : α → Bool} {x : α} (h : x ∈ l.take m) (hp : p x = true) :
    x ∈ (l.filter p).take m := by
  have hsplit : l.filter p = (l.take m).filter p ++ (l.drop m).filter p := by
    rw [← List.filter_append, List.take_append_drop]
  rw [hsplit, List.take_append]
  refine List.mem_append_left _ ?_
  rw [List.take_of_length_le]
  · exact List.mem_filter.mpr ⟨h, hp⟩
  · exact (List.length_filter_le _ _).trans (List.length_take_le _ _)

/-! ## Ordered lists -/

section Ordered

variable (key : α → Nat)

/-- The keys go down. -/
def Descending (l : List α) : Prop := l.Pairwise fun a b => key b < key a

/-- Sorted with the highest key first. -/
def sortDesc (l : List α) : List α := l.mergeSort fun a b => decide (key b ≤ key a)

variable {key}

theorem Descending.nodup {l : List α} (h : Descending key l) : l.Nodup :=
  h.imp fun hab he => absurd (he ▸ hab) (Nat.lt_irrefl _)

/-- A key belongs to one element. -/
theorem Descending.inj {l : List α} (h : Descending key l) {a b : α} (ha : a ∈ l) (hb : b ∈ l) (he : key a = key b) :
    a = b := by
  have hnodup : (l.map key).Nodup :=
    List.pairwise_map.mpr (h.imp fun hab => Nat.ne_of_gt hab)
  exact List.inj_on_of_nodup_map hnodup ha hb he

theorem Descending.filter {l : List α} (h : Descending key l) (p : α → Bool) : Descending key (l.filter p) :=
  List.Pairwise.filter p h

/-- Ordered lists with the same members are the same. -/
theorem Descending.eq_of_mem {l l' : List α} (h : Descending key l) (h' : Descending key l') (hm : ∀ x, x ∈ l ↔ x ∈ l') :
    l = l' := by
  refine ((List.perm_ext_iff_of_nodup h.nodup h'.nodup).mpr hm).eq_of_pairwise (fun a b _ _ hab hba => ?_) h h'
  omega

theorem mem_sortDesc {l : List α} {x : α} : x ∈ sortDesc key l ↔ x ∈ l := List.mem_mergeSort

theorem descending_sortDesc {l : List α} (hl : l.Nodup) (hk : ∀ a ∈ l, ∀ b ∈ l, key a = key b → a = b) :
    Descending key (sortDesc key l) := by
  have hsorted : (sortDesc key l).Pairwise fun a b => key b ≤ key a :=
    (List.pairwise_mergeSort (fun a b c h₁ h₂ => by
      rw [decide_eq_true_eq] at *
      omega) (fun a b => by
      rw [Bool.or_eq_true, decide_eq_true_eq, decide_eq_true_eq]
      omega) l).imp fun h => of_decide_eq_true h
  have hnodup : (sortDesc key l).Nodup := (List.mergeSort_perm l _).nodup_iff.mpr hl
  refine (hsorted.and hnodup).imp_of_mem fun {a b} ha hb h => ?_
  have hne : key a ≠ key b := fun he => h.2 (hk a (mem_sortDesc.mp ha) b (mem_sortDesc.mp hb) he)
  omega

/-- Sorting a part of an ordered list gives the part in its order. -/
theorem sortDesc_eq_filter {l s : List α} (hl : Descending key l) (hs : s.Nodup) {q : α → Bool}
    (hm : ∀ x, x ∈ s ↔ x ∈ l ∧ q x = true) : sortDesc key s = l.filter q := by
  refine (descending_sortDesc hs fun a ha b hb => hl.inj ((hm a).mp ha).1 ((hm b).mp hb).1).eq_of_mem (hl.filter q)
    fun x => ?_
  rw [mem_sortDesc, hm, List.mem_filter]

/-- The first elements of a union of classes are those of the first elements of each class. -/
theorem take_sortDesc_classes [DecidableEq β] (cls : α → β) {l : List α} (hl : Descending key l) {cs : List β}
    (hcs : cs.Nodup) (p : α → Bool) (m : Nat) :
    (sortDesc key (cs.flatMap fun c => (l.filter fun x => decide (cls x = c) && p x).take m)).take m =
      (l.filter fun x => decide (cls x ∈ cs) && p x).take m := by
  classical
  have hnodup : (cs.flatMap fun c => (l.filter fun x => decide (cls x = c) && p x).take m).Nodup := by
    refine List.nodup_flatMap.mpr ⟨fun c _ => ((hl.filter _).nodup.sublist (List.take_sublist _ _)), hcs.imp fun hne => ?_⟩
    intro x hx hx'
    have h := (List.mem_filter.mp (List.mem_of_mem_take hx)).2
    have h' := (List.mem_filter.mp (List.mem_of_mem_take hx')).2
    rw [Bool.and_eq_true, decide_eq_true_eq] at h h'
    exact hne (h.1.symm.trans h'.1)
  have hmem : ∀ x, x ∈ (cs.flatMap fun c => (l.filter fun x => decide (cls x = c) && p x).take m) ↔
      x ∈ (l.filter fun x => decide (cls x ∈ cs) && p x) ∧
        decide (x ∈ (l.filter fun y => decide (cls y = cls x) && p y).take m) = true := by
    intro x
    rw [List.mem_flatMap, List.mem_filter, Bool.and_eq_true, decide_eq_true_eq, decide_eq_true_eq]
    constructor
    · rintro ⟨c, hc, hx⟩
      have h := List.mem_filter.mp (List.mem_of_mem_take hx)
      rw [Bool.and_eq_true, decide_eq_true_eq] at h
      obtain ⟨hxl, rfl, hp⟩ := h
      exact ⟨⟨hxl, hc, hp⟩, hx⟩
    · rintro ⟨⟨-, hc, -⟩, hx⟩
      exact ⟨cls x, hc, hx⟩
  rw [sortDesc_eq_filter (hl.filter _) hnodup hmem]
  refine take_filter fun x hx => ?_
  have hin := List.mem_filter.mp (List.mem_of_mem_take hx)
  rw [Bool.and_eq_true, decide_eq_true_eq] at hin
  have h := mem_take_filter (p := fun y => decide (cls y = cls x) && p y) hx (by simp [hin.2.2])
  rw [List.filter_filter] at h
  rw [decide_eq_true_eq]
  convert h using 3
  funext y
  by_cases hy : cls y = cls x
  · simp [hy, hin.2.1]
  · simp [hy]

/-- A union of classes, sorted, is the part in them. -/
theorem sortDesc_classes [DecidableEq β] (cls : α → β) {l : List α} (hl : Descending key l) {cs : List β} (hcs : cs.Nodup)
    (p : α → Bool) :
    sortDesc key (cs.flatMap fun c => l.filter fun x => decide (cls x = c) && p x) =
      l.filter fun x => decide (cls x ∈ cs) && p x := by
  refine sortDesc_eq_filter hl (List.nodup_flatMap.mpr ⟨fun c _ => (hl.filter _).nodup, hcs.imp fun hne x hx hx' => ?_⟩)
    fun x => ?_
  · have h := (List.mem_filter.mp hx).2
    have h' := (List.mem_filter.mp hx').2
    rw [Bool.and_eq_true, decide_eq_true_eq] at h h'
    exact hne (h.1.symm.trans h'.1)
  · rw [List.mem_flatMap, Bool.and_eq_true, decide_eq_true_eq]
    constructor
    · rintro ⟨c, hc, hx⟩
      obtain ⟨hxl, h⟩ := List.mem_filter.mp hx
      rw [Bool.and_eq_true, decide_eq_true_eq] at h
      exact ⟨hxl, h.1 ▸ hc, h.2⟩
    · rintro ⟨hxl, hc, hp⟩
      exact ⟨cls x, hc, List.mem_filter.mpr ⟨hxl, by simp [hp]⟩⟩

end Ordered

end Paging
