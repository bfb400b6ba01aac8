/-
Records that name their parents: each has a key and the key of what it hangs from, a root or another record. Going down
from the root visits every record that hangs from it, however many steps below, once and with its parent; the way down is
never longer than there are records. The root must not be the key of a record, and no key that of two.
-/
import Mathlib.Data.List.Nodup
import Mathlib.Data.List.Perm.Subperm

namespace Hanging

universe u

variable {α κ : Type u} (key up : α → κ) (root : κ)

/-- The key of a place: the root, or a record. -/
def keyOf : Option α → κ
  | none => root
  | some a => key a

/-- The records below a place, each with the place it is directly below; none where the bound for the way down is reached.
-/
def visit (children : κ → List α) : Nat → Option α → Option (List (Option α × α))
  | 0, _ => none
  | n + 1, p => ((children (keyOf key root p)).mapM fun a => (visit children n (some a)).map ((p, a) :: ·)).map List.flatten

/-- The record hangs from the root, this many records in between. -/
inductive Level (l : List α) : Nat → α → Prop where
  | top {a : α} : a ∈ l → up a = root → Level l 0 a
  | next {n : Nat} {p a : α} : Level l n p → a ∈ l → up a = key p → Level l (n + 1) a

/-- The second record is this many steps below the first. -/
inductive Under (l : List α) : Nat → α → α → Prop where
  | refl {a : α} : Under l 0 a a
  | step {n : Nat} {a p x : α} : Under l n a p → p ∈ l → x ∈ l → up x = key p → Under l (n + 1) a x

/-- The record hangs from the place. -/
def Beneath (l : List α) (p : Option α) (x : α) : Prop := ∃ j c, c ∈ l ∧ up c = keyOf key root p ∧ Under key up l j c x

/-- The number of records from the root to a place. -/
def Depth (l : List α) : Option α → Nat → Prop
  | none, n => n = 0
  | some p, n => ∃ m, n = m + 1 ∧ Level key up root l m p

variable {key up root} {l : List α} {n m : Nat} {a b x : α} {p : Option α} {children : κ → List α}

theorem Level.mem (h : Level key up root l n a) : a ∈ l := by
  cases h with
  | top ha _ => exact ha
  | next _ ha _ => exact ha

theorem Under.mem (h : Under key up l n a x) (ha : a ∈ l) : x ∈ l := by
  cases h with
  | refl => exact ha
  | step _ _ hx _ => exact hx

theorem Under.level (h : Under key up l n a x) (ha : Level key up root l m a) : Level key up root l (m + n) x := by
  induction h with
  | refl => exact ha
  | step _ _ hx hup ih => exact .next (ih ha) hx hup

/-- One step more at the top. -/
theorem Under.cons {c : α} (h : Under key up l n c x) (ha : a ∈ l) (hc : c ∈ l) (hup : up c = key a) :
    Under key up l (n + 1) a x := by
  induction h with
  | refl => exact .step .refl ha hc hup
  | step _ hp hx hup' ih => exact .step (ih hc hup) hp hx hup'

/-- What is below a record, and not the record itself, hangs from it. -/
theorem Under.beneath (ha : a ∈ l) (h : Under key up l n a x) (hn : n ≠ 0) : Beneath key up root l (some a) x := by
  induction h with
  | refl => exact absurd rfl hn
  | @step n a p x hap hp hx hup ih =>
    cases n with
    | zero =>
      cases hap
      exact ⟨0, x, hx, hup, .refl⟩
    | succ n =>
      obtain ⟨j, c, hc, huc, hunder⟩ := ih ha (Nat.succ_ne_zero _)
      exact ⟨j + 1, c, hc, huc, .step hunder hp hx hup⟩

section Keys

variable (hkeys : (l.map key).Nodup)

include hkeys

theorem eq_of_key (ha : a ∈ l) (hb : b ∈ l) (h : key a = key b) : a = b := List.inj_on_of_nodup_map hkeys ha hb h

/-- What a record is this many steps below is one record. -/
theorem Under.unique (h₁ : Under key up l n a x) (h₂ : Under key up l n b x) : a = b := by
  induction n generalizing x with
  | zero =>
    cases h₁
    cases h₂
    rfl
  | succ n ih =>
    cases h₁ with
    | step h₁ hp _ hup =>
      cases h₂ with
      | step h₂ hp' _ hup' =>
        obtain rfl := eq_of_key hkeys hp hp' (hup.symm.trans hup')
        exact ih h₁ h₂

variable (hroot : root ∉ l.map key)

include hroot

/-- A record is at one level. -/
theorem Level.unique (h₁ : Level key up root l n a) (h₂ : Level key up root l m a) : n = m := by
  have hne : ∀ {p : α}, p ∈ l → key p ≠ root := fun hp he => hroot (List.mem_map.mpr ⟨_, hp, he⟩)
  induction h₁ generalizing m with
  | top _ hup =>
    cases h₂ with
    | top _ _ => rfl
    | next h₂ _ hup' => exact absurd (hup'.symm.trans hup) (hne h₂.mem)
  | next h₁ _ hup ih =>
    cases h₂ with
    | top _ hup' => exact absurd (hup.symm.trans hup') (hne h₁.mem)
    | next h₂ _ hup' =>
      obtain rfl := eq_of_key hkeys h₁.mem h₂.mem (hup.symm.trans hup')
      rw [ih h₂]

/-- The way down to a record passes different ones. -/
theorem Level.lt (h : Level key up root l n a) : n < l.length := by
  have hway : ∃ way : List α, way.Nodup ∧ way.length = n + 1 ∧ ∀ x ∈ way, ∃ m ≤ n, Level key up root l m x := by
    induction h with
    | @top a ha hup => exact ⟨[a], by simp, rfl, fun x hx =>
      ⟨0, Nat.le_refl 0, by rw [List.mem_singleton.mp hx]; exact .top ha hup⟩⟩
    | @next n p a hp ha hup ih =>
      obtain ⟨way, hnodup, hlen, hway⟩ := ih
      have hlevel : Level key up root l (n + 1) a := .next hp ha hup
      refine ⟨a :: way, List.nodup_cons.mpr ⟨fun hm => ?_, hnodup⟩, by rw [List.length_cons, hlen], fun x hx => ?_⟩
      · obtain ⟨m, hm, hma⟩ := hway a hm
        have := hlevel.unique hkeys hroot hma
        omega
      · rcases List.mem_cons.mp hx with rfl | hx
        · exact ⟨n + 1, Nat.le_refl _, hlevel⟩
        · obtain ⟨m, hm, hx⟩ := hway x hx
          exact ⟨m, Nat.le_succ_of_le hm, hx⟩
  obtain ⟨way, hnodup, hlen, hway⟩ := hway
  have hle := (hnodup.subperm fun x hx => (hway x hx).elim fun _ h => h.2.mem).length_le
  omega

end Keys

/-- What a visit yields: no record twice, each record beneath the place, and with each its parent. -/
structure Visited (key up : α → κ) (root : κ) (l : List α) (p : Option α) (v : List (Option α × α)) : Prop where
  nodup : (v.map Prod.snd).Nodup
  parent : ∀ q a, (q, a) ∈ v → up a = keyOf key root q ∧ Beneath key up root l p a ∧ ∀ b ∈ q, b ∈ l
  all : ∀ a, Beneath key up root l p a → a ∈ v.map Prod.snd

theorem mapM_some {β : Type u} {f : α → Option β} {g : α → β} {l : List α} (h : ∀ a ∈ l, f a = some (g a)) :
    l.mapM f = some (l.map g) := by
  induction l with
  | nil => rfl
  | cons a l ih =>
    rw [List.mapM_cons, h a List.mem_cons_self, ih fun b hb => h b (List.mem_cons_of_mem _ hb)]
    rfl

/-- The visit ends, and yields the records beneath the place. -/
theorem visit_at [DecidableEq κ] (hkeys : (l.map key).Nodup) (hroot : root ∉ l.map key)
    (hchildren : ∀ k, (children k).Perm (l.filter fun a => up a = k)) {fuel : Nat} (hdepth : Depth key up root l p n)
    (hfuel : l.length < fuel + n) : ∃ v, visit key root children fuel p = some v ∧ Visited key up root l p v := by
  induction fuel generalizing p n with
  | zero =>
    cases p with
    | none =>
      have hn : n = 0 := hdepth
      omega
    | some q =>
      obtain ⟨m, rfl, hq⟩ := hdepth
      have := hq.lt hkeys hroot
      omega
  | succ fuel ih =>
    have hmem : ∀ c, c ∈ children (keyOf key root p) ↔ c ∈ l ∧ up c = keyOf key root p := by
      intro c
      rw [(hchildren _).mem_iff, List.mem_filter, decide_eq_true_eq]
    have hlevel : ∀ c ∈ children (keyOf key root p), Level key up root l n c := by
      intro c hc
      obtain ⟨hcl, hup⟩ := (hmem c).mp hc
      cases p with
      | none =>
        obtain rfl : n = 0 := hdepth
        exact .top hcl hup
      | some q =>
        obtain ⟨m, rfl, hq⟩ := hdepth
        exact .next hq hcl hup
    have hbelow : ∀ c ∈ children (keyOf key root p), ∃ v, visit key root children fuel (some c) = some v ∧
        Visited key up root l (some c) v :=
      fun c hc => ih ⟨n, rfl, hlevel c hc⟩ (by omega)
    let below : α → List (Option α × α) := fun c => (visit key root children fuel (some c)).getD []
    have hspec : ∀ c ∈ children (keyOf key root p), visit key root children fuel (some c) = some (below c) ∧
        Visited key up root l (some c) (below c) := by
      intro c hc
      obtain ⟨v, hv, hvisited⟩ := hbelow c hc
      have hget : below c = v := by
        show (visit key root children fuel (some c)).getD [] = v
        rw [hv]
        rfl
      rw [hget]
      exact ⟨hv, hvisited⟩
    refine ⟨(children (keyOf key root p)).flatMap fun c => (p, c) :: below c, ?_, ?_, ?_, ?_⟩
    · have hmap : ((children (keyOf key root p)).mapM fun a => (visit key root children fuel (some a)).map ((p, a) :: ·)) =
          some ((children (keyOf key root p)).map fun c => (p, c) :: below c) :=
        mapM_some fun c hc => by rw [(hspec c hc).1, Option.map_some]
      rw [visit, hmap, Option.map_some]
      rfl
    · have hnodup : (children (keyOf key root p)).Nodup :=
        (hchildren _).nodup_iff.mpr ((List.Nodup.of_map key hkeys).filter _)
      rw [List.map_flatMap]
      refine List.nodup_flatMap.mpr ⟨fun c hc => ?_, ?_⟩
      · rw [List.map_cons]
        refine List.nodup_cons.mpr ⟨fun hm => ?_, (hspec c hc).2.nodup⟩
        -- a record is not beneath itself
        obtain ⟨⟨q, a⟩, hqa, rfl⟩ := List.mem_map.mp hm
        obtain ⟨-, ⟨j, d, hd, hud, hunder⟩, -⟩ := (hspec a hc).2.parent q a hqa
        have hself := (hunder.cons ((hmem a).mp hc).1 hd hud).level (hlevel a hc)
        have := hself.unique hkeys hroot (hlevel a hc)
        omega
      · refine hnodup.imp_of_mem fun {a b} ha hb hne => ?_
        -- the records beneath two siblings are different
        have hunder : ∀ c ∈ children (keyOf key root p), ∀ x ∈ ((p, c) :: below c).map Prod.snd, ∃ j,
          Under key up l j c x := by
          intro c hc x hx
          rw [List.map_cons] at hx
          rcases List.mem_cons.mp hx with rfl | hx
          · exact ⟨0, .refl⟩
          · obtain ⟨⟨q, x⟩, hqx, rfl⟩ := List.mem_map.mp hx
            obtain ⟨-, ⟨j, d, hd, hud, hunder⟩, -⟩ := (hspec c hc).2.parent q x hqx
            exact ⟨j + 1, hunder.cons ((hmem c).mp hc).1 hd hud⟩
        intro x hxa hxb
        obtain ⟨j, hja⟩ := hunder a ha x hxa
        obtain ⟨j', hjb⟩ := hunder b hb x hxb
        have hj := (hja.level (hlevel a ha)).unique hkeys hroot (hjb.level (hlevel b hb))
        obtain rfl : j = j' := by omega
        exact hne (hja.unique hkeys hjb)
    · intro q a hqa
      obtain ⟨c, hc, hqa⟩ := List.mem_flatMap.mp hqa
      obtain ⟨hcl, hup⟩ := (hmem c).mp hc
      rcases List.mem_cons.mp hqa with heq | hqa
      · cases heq
        refine ⟨hup, ⟨0, a, hcl, hup, .refl⟩, fun b hb => ?_⟩
        cases p with
        | none => cases hb
        | some q =>
          obtain ⟨m, -, hq⟩ := hdepth
          cases hb
          exact hq.mem
      · obtain ⟨hua, ⟨j, d, hd, hud, hunder⟩, hql⟩ := (hspec c hc).2.parent q a hqa
        exact ⟨hua, ⟨j + 1, c, hcl, hup, hunder.cons hcl hd hud⟩, hql⟩
    · intro a ha
      obtain ⟨j, c, hc, hup, hunder⟩ := ha
      have hcm := (hmem c).mpr ⟨hc, hup⟩
      rw [List.map_flatMap]
      refine List.mem_flatMap.mpr ⟨c, hcm, ?_⟩
      rw [List.map_cons]
      cases hunder with
      | refl => exact List.mem_cons_self
      | step hcp hp ha hua =>
        refine List.mem_cons_of_mem _ ((hspec c hcm).2.all a ?_)
        exact Under.beneath hc (.step hcp hp ha hua) (Nat.succ_ne_zero _)

end Hanging
