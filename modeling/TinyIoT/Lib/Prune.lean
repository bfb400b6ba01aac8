/-
Pruned forests: what is left of a forest when some subtrees go and the other labels change by a
relation, and the path from a label up to the top of its forest, which survives the pruning with the
label.
-/
import Mathlib.Data.List.Forall2
import TinyIoT.Lib.Forest

namespace Forest

variable {α : Type}

/-- The first label in preorder that satisfies `p` and what stands above it, upwards. -/
def path? (p : α → Bool) : Forest α → Option (List α)
  | nil => none
  | node a c s =>
    if p a then some [a]
    else match path? p c with
      | some l => some (l ++ [a])
      | none => path? p s

/-- Some subtrees are gone, and each label left is related by `R` to the one it was. -/
inductive Pruned (R : α → α → Prop) : Forest α → Forest α → Prop
  | nil : Pruned R nil nil
  | drop {a : α} {c s s' : Forest α} : Pruned R s s' → Pruned R (node a c s) s'
  | keep {a a' : α} {c c' s s' : Forest α} :
      R a a' → Pruned R c c' → Pruned R s s' → Pruned R (node a c s) (node a' c' s')

theorem path?_mem {p : α → Bool} {t : Forest α} {l : List α} (h : t.path? p = some l) :
    ∃ a ∈ t.nodes, p a = true := by
  induction t generalizing l with
  | nil => cases h
  | node a c s ihc ihs =>
    unfold path? at h
    split at h
    · rename_i hp
      exact ⟨a, by simp [nodes], hp⟩
    · split at h
      · rename_i l' hl
        obtain ⟨b, hb, hp⟩ := ihc hl
        exact ⟨b, by simp [nodes, hb], hp⟩
      · obtain ⟨b, hb, hp⟩ := ihs h
        exact ⟨b, by simp [nodes, hb], hp⟩

theorem path?_exists {p : α → Bool} {t : Forest α} {a : α} (ha : a ∈ t.nodes) (hp : p a = true) :
    ∃ l, t.path? p = some l := by
  induction t with
  | nil => cases ha
  | node b c s ihc ihs =>
    unfold path?
    split
    · exact ⟨[b], rfl⟩
    · rename_i hb
      rw [nodes, List.mem_cons, List.mem_append] at ha
      split
      · exact ⟨_, rfl⟩
      · rename_i hc
        rcases ha with rfl | ha | ha
        · exact absurd hp hb
        · obtain ⟨l, hl⟩ := ihc ha
          rw [hc] at hl
          cases hl
        · exact ihs ha

/-- The path goes up from the label that is found. -/
theorem path?_of_find? {p : α → Bool} {t : Forest α} {a : α} (h : t.find? p = some a) :
    ∃ above, t.path? p = some (a :: above) := by
  induction t with
  | nil => cases h
  | node b c s ihc ihs =>
    unfold find? nodes at h
    unfold path?
    rw [List.find?_cons] at h
    cases hb : p b with
    | true =>
      rw [hb] at h
      cases h
      exact ⟨[], if_pos rfl⟩
    | false =>
      rw [hb] at h
      dsimp only at h
      rw [List.find?_append] at h
      rw [if_neg Bool.false_ne_true]
      cases hc : c.nodes.find? p with
      | some d =>
        rw [hc, Option.some_or] at h
        cases h
        obtain ⟨above, hpath⟩ := ihc hc
        exact ⟨above ++ [b], by rw [hpath]; rfl⟩
      | none =>
        rw [hc, Option.none_or] at h
        have hnone : c.path? p = none := by
          rcases hl : c.path? p with _ | l
          · rfl
          · obtain ⟨d, hd, hpd⟩ := path?_mem hl
            exact absurd hpd (List.find?_eq_none.mp hc d hd)
        obtain ⟨above, hpath⟩ := ihs h
        exact ⟨above, by rw [hnone]; exact hpath⟩

theorem path?_eq_none {p : α → Bool} {t : Forest α} (h : ∀ a ∈ t.nodes, p a = false) : t.path? p = none := by
  rcases hl : t.path? p with _ | l
  · rfl
  · obtain ⟨a, ha, hp⟩ := path?_mem hl
    rw [h a ha] at hp
    cases hp

namespace Pruned

variable {R : α → α → Prop} {s t u : Forest α}

theorem refl (hR : ∀ a, R a a) : (t : Forest α) → Pruned R t t
  | .nil => .nil
  | .node a c s => .keep (hR a) (refl hR c) (refl hR s)

theorem trans (hR : ∀ {a b c}, R a b → R b c → R a c) (h₁ : Pruned R s t) (h₂ : Pruned R t u) : Pruned R s u := by
  induction h₁ generalizing u with
  | nil => exact h₂
  | drop _ ih => exact .drop (ih h₂)
  | keep hab _ _ ihc ihs =>
    cases h₂ with
    | drop h => exact .drop (ihs h)
    | keep hbc hc hs => exact .keep (hR hab hbc) (ihc hc) (ihs hs)

theorem mono {R' : α → α → Prop} (h : Pruned R s t) (hR : ∀ {a b}, R a b → R' a b) : Pruned R' s t := by
  induction h with
  | nil => exact .nil
  | drop _ ih => exact .drop ih
  | keep hab _ _ ihc ihs => exact .keep (hR hab) ihc ihs

theorem remove (hR : ∀ a, R a a) (p : α → Bool) (t : Forest α) : Pruned R t (t.remove p) := by
  induction t with
  | nil => exact .nil
  | node a c s ihc ihs =>
    unfold Forest.remove
    split
    · exact .drop ihs
    · exact .keep (hR a) ihc ihs

theorem modify {p : α → Bool} {f : α → α} (hR : ∀ a, R a a) (t : Forest α)
    (h : ∀ a ∈ t.nodes, p a = true → R a (f a)) : Pruned R t (t.modify p f) := by
  induction t with
  | nil => exact .nil
  | node a c s ihc ihs =>
    refine .keep ?_ (ihc fun b hb => h b (by simp [nodes, hb])) (ihs fun b hb => h b (by simp [nodes, hb]))
    split
    · exact h a (by simp [nodes]) ‹_›
    · exact hR a

theorem mem (h : Pruned R s t) {b : α} (hb : b ∈ t.nodes) : ∃ a ∈ s.nodes, R a b := by
  induction h with
  | nil => cases hb
  | drop _ ih =>
    obtain ⟨a, ha, hr⟩ := ih hb
    exact ⟨a, by simp [nodes, ha], hr⟩
  | keep hr _ _ ihc ihs =>
    rw [nodes, List.mem_cons, List.mem_append] at hb
    rcases hb with rfl | hb | hb
    · exact ⟨_, by simp [nodes], hr⟩
    · obtain ⟨a, ha, hr⟩ := ihc hb
      exact ⟨a, by simp [nodes, ha], hr⟩
    · obtain ⟨a, ha, hr⟩ := ihs hb
      exact ⟨a, by simp [nodes, ha], hr⟩

theorem root (h : Pruned R s t) {b : α} (hb : b ∈ t.roots) : ∃ a ∈ s.roots, R a b := by
  induction h with
  | nil => cases hb
  | drop _ ih =>
    obtain ⟨a, ha, hr⟩ := ih hb
    exact ⟨a, List.mem_cons_of_mem _ ha, hr⟩
  | keep hr _ _ _ ihs =>
    rcases List.mem_cons.mp hb with rfl | hb
    · exact ⟨_, List.mem_cons_self, hr⟩
    · obtain ⟨a, ha, hr⟩ := ihs hb
      exact ⟨a, List.mem_cons_of_mem _ ha, hr⟩

/-- A cell that is left is an old one, pruned. -/
theorem cell (h : Pruned R s t) {b : α} {d : Forest α} (hb : (b, d) ∈ t.cells) :
    ∃ a c, (a, c) ∈ s.cells ∧ R a b ∧ Pruned R c d := by
  induction h with
  | nil => cases hb
  | drop _ ih =>
    obtain ⟨a, c, hc, hr⟩ := ih hb
    exact ⟨a, c, by simp [cells, hc], hr⟩
  | keep hr hc _ ihc ihs =>
    rw [cells, List.mem_cons, List.mem_append] at hb
    rcases hb with he | hb | hb
    · cases he
      exact ⟨_, _, by simp [cells], hr, hc⟩
    · obtain ⟨a, c, hc, hr⟩ := ihc hb
      exact ⟨a, c, by simp [cells, hc], hr⟩
    · obtain ⟨a, c, hc, hr⟩ := ihs hb
      exact ⟨a, c, by simp [cells, hc], hr⟩

/-- The keys that are left are some of the old ones, in the old order. -/
theorem keys {κ : Type} (key : α → κ) (hR : ∀ {a b}, R a b → key a = key b) (h : Pruned R s t) :
    (t.nodes.map key).Sublist (s.nodes.map key) := by
  induction h with
  | nil => exact List.Sublist.refl _
  | drop _ ih =>
    rw [nodes, List.map_cons, List.map_append]
    exact (ih.trans (List.sublist_append_right _ _)).cons _
  | keep hr _ _ ihc ihs =>
    rw [nodes, nodes, List.map_cons, List.map_cons, List.map_append, List.map_append, hR hr]
    exact (ihc.append ihs).cons_cons _

section Key

variable {κ : Type} {p : α → Bool} {k : κ}

/-- The path to a label that is left leads to related labels, when no key occurs twice. -/
theorem path? (key : α → κ) (hR : ∀ {a b}, R a b → key a = key b) (hp : ∀ a, p a = true ↔ key a = k)
    (h : Pruned R s t) (hnd : (s.nodes.map key).Nodup) {l' : List α} (hl : t.path? p = some l') :
    ∃ l, s.path? p = some l ∧ List.Forall₂ R l l' := by
  -- a label with the key in one part of the forest means that no label of another part has it
  have apart {x y : List α} {b : α} (hd : (x.map key).Disjoint (y.map key)) (hb : b ∈ y) (hpb : p b = true) :
      ∀ a ∈ x, p a = false := by
    intro a ha
    rw [← Bool.not_eq_true, hp]
    intro hk
    exact hd (List.mem_map.mpr ⟨a, ha, rfl⟩) (List.mem_map.mpr ⟨b, hb, ((hp b).mp hpb).trans hk.symm⟩)
  induction h generalizing l' with
  | nil => cases hl
  | @drop a c s s' _ ih =>
    rw [nodes, ← List.cons_append, List.map_append, List.nodup_append'] at hnd
    obtain ⟨l, hl, hr⟩ := ih hnd.2.1 hl
    obtain ⟨b, hb, hpb⟩ := path?_mem hl
    have hout := apart hnd.2.2 hb hpb
    refine ⟨l, ?_, hr⟩
    unfold Forest.path?
    rw [if_neg (by simp [hout a (by simp)]), path?_eq_none fun x hx => hout x (by simp [hx])]
    exact hl
  | @keep a a' c c' s s' hr hc hs ihc ihs =>
    have hsplit := hnd
    rw [nodes, ← List.cons_append, List.map_append, List.nodup_append'] at hsplit
    have hpa : p a = p a' := by
      have := hp a
      rw [hR hr, ← hp a'] at this
      exact Bool.eq_iff_iff.mpr this
    unfold Forest.path? at hl
    unfold Forest.path?
    split at hl
    · rename_i h
      cases hl
      exact ⟨[a], if_pos (hpa.trans h), .cons hr .nil⟩
    · rename_i h
      rw [if_neg (by rw [hpa]; exact h)]
      split at hl
      · rename_i l₁ hl₁
        cases hl
        have hndc : (c.nodes.map key).Nodup := (List.nodup_cons.mp hsplit.1).2
        obtain ⟨l, hl, hall⟩ := ihc hndc hl₁
        rw [hl]
        exact ⟨l ++ [a], rfl, List.rel_append hall (.cons hr .nil)⟩
      · obtain ⟨l, hl, hall⟩ := ihs hsplit.2.1 hl
        obtain ⟨b, hb, hpb⟩ := path?_mem hl
        have hout := apart hsplit.2.2 hb hpb
        rw [path?_eq_none fun x hx => hout x (by simp [hx])]
        exact ⟨l, hl, hall⟩

end Key

end Pruned

end Forest
