/-
A list filled from items one by one: an item is passed over where the list has its key, and is otherwise listed
under its name, which need not be its key. No key is then listed twice exactly when an item whose key comes
again is named by it, where names tell the keys apart.
-/
import Mathlib.Data.List.Basic
import Mathlib.Data.List.Nodup

namespace TinyIoT

section

variable {α κ : Type*} [DecidableEq κ] (key name : α → κ)

/-- The items that are listed after `names`. -/
def listed : List κ → List α → List α
  | _, [] => []
  | names, a :: l => if key a ∈ names then listed names l else a :: listed (names ++ [name a]) l

/-- The first item of each key is named by it, or it is the only one; `names` are there before. -/
def KeyedFirst (names : List κ) (l : List α) : Prop :=
  ∀ l₁ a l₂, l = l₁ ++ a :: l₂ → (∀ b ∈ l₁, key b ≠ key a) → (∃ b ∈ l₂, key b = key a) → name a = key a ∨ key a ∈ names

variable {key name} {names : List κ} {l : List α}

theorem listed_cons {a : α} : listed key name names (a :: l) =
    if key a ∈ names then listed key name names l else a :: listed key name (names ++ [name a]) l := rfl

theorem listed_append {l' : List α} :
    listed key name names (l ++ l') =
      listed key name names l ++ listed key name (names ++ (listed key name names l).map name) l' := by
  induction l generalizing names with
  | nil => simp [listed]
  | cons a l ih =>
    rw [List.cons_append, listed_cons, listed_cons]
    split
    · exact ih
    · rw [ih, List.cons_append, List.map_cons, List.append_assoc]
      rfl

theorem listed_sublist : (listed key name names l).Sublist l := by
  induction l generalizing names with
  | nil => exact List.Sublist.refl _
  | cons a l ih =>
    unfold listed
    split
    · exact ih.cons a
    · exact ih.cons_cons a

theorem key_notMem_of_listed {a : α} (h : a ∈ listed key name names l) : key a ∉ names := by
  induction l generalizing names with
  | nil => cases h
  | cons b l ih =>
    unfold listed at h
    split at h
    · exact ih h
    · rcases List.mem_cons.mp h with rfl | h
      · assumption
      · exact fun hn => ih h (List.mem_append_left _ hn)

/-- A key that is not listed yet will be, where a name that equals it is of an item with that key. -/
theorem exists_listed {k : κ} (hk : k ∉ names) (hsep : ∀ c ∈ l, name c = k → key c = k) (h : ∃ b ∈ l, key b = k) :
    ∃ b ∈ listed key name names l, key b = k := by
  induction l generalizing names with
  | nil => exact absurd h (by simp)
  | cons c l ih =>
    obtain ⟨b, hb, rfl⟩ := h
    have hsep' : ∀ d ∈ l, name d = key b → key d = key b := fun d hd => hsep d (List.mem_cons_of_mem _ hd)
    unfold listed
    by_cases hc : key c = key b
    · rw [if_neg (hc ▸ hk)]
      exact ⟨c, List.mem_cons_self, hc⟩
    · have hbl : b ∈ l := by
        rcases List.mem_cons.mp hb with rfl | hb
        · exact absurd rfl hc
        · exact hb
      split
      · exact ih hk hsep' ⟨b, hbl, rfl⟩
      · have hnew : key b ∉ names ++ [name c] := by
          intro hn
          rcases List.mem_append.mp hn with hn | hn
          · exact hk hn
          · exact hc (hsep c List.mem_cons_self (List.mem_singleton.mp hn).symm)
        obtain ⟨d, hd, hkd⟩ := ih hnew hsep' ⟨b, hbl, rfl⟩
        exact ⟨d, List.mem_cons_of_mem _ hd, hkd⟩

theorem nodup_listed (h : KeyedFirst key name names l) : ((listed key name names l).map key).Nodup := by
  induction l generalizing names with
  | nil => exact List.nodup_nil
  | cons a l ih =>
    unfold listed
    by_cases ha : key a ∈ names
    · rw [if_pos ha]
      refine ih fun l₁ b l₂ hl hfirst hagain => ?_
      by_cases hab : key a = key b
      · exact .inr (hab ▸ ha)
      · refine h (a :: l₁) b l₂ (by rw [hl]; rfl) (fun c hc => ?_) hagain
        rcases List.mem_cons.mp hc with rfl | hc
        · exact hab
        · exact hfirst c hc
    · rw [if_neg ha, List.map_cons, List.nodup_cons]
      constructor
      · -- an item with the key of `a` would need a name for it that the list does not have
        intro hmem
        obtain ⟨b, hb, hkey⟩ := List.mem_map.mp hmem
        rcases h [] a l rfl (by simp) ⟨b, listed_sublist.subset hb, hkey⟩ with hname | hname
        · refine key_notMem_of_listed hb (List.mem_append_right _ ?_)
          rw [hkey, hname]
          exact List.mem_singleton_self _
        · exact ha hname
      · refine ih fun l₁ b l₂ hl hfirst hagain => ?_
        by_cases hab : key a = key b
        · rcases h [] a l rfl (by simp) ⟨b, by rw [hl]; simp, hab.symm⟩ with hname | hname
          · exact .inr (List.mem_append_right _ (by rw [← hab, hname]; exact List.mem_singleton_self _))
          · exact absurd hname ha
        · rcases h (a :: l₁) b l₂ (by rw [hl]; rfl) (fun c hc => by
            rcases List.mem_cons.mp hc with rfl | hc
            · exact hab
            · exact hfirst c hc) hagain with hname | hname
          · exact .inl hname
          · exact .inr (List.mem_append_left _ hname)

theorem keyedFirst_of_nodup (hsep : ∀ a ∈ l, ∀ b ∈ l, name b = key a → key b = key a)
    (h : ((listed key name names l).map key).Nodup) : KeyedFirst key name names l := by
  induction l generalizing names with
  | nil =>
    intro l₁ a l₂ hl
    simp at hl
  | cons a l ih =>
    have hsep' : ∀ b ∈ l, ∀ c ∈ l, name c = key b → key c = key b := fun b hb c hc =>
      hsep b (List.mem_cons_of_mem _ hb) c (List.mem_cons_of_mem _ hc)
    unfold listed at h
    intro l₁ b l₂ hl hfirst hagain
    by_cases ha : key a ∈ names
    · rw [if_pos ha] at h
      cases l₁ with
      | nil =>
        obtain ⟨rfl, rfl⟩ := List.cons.inj hl
        exact .inr ha
      | cons c l₁ =>
        obtain ⟨rfl, rfl⟩ := List.cons.inj hl
        exact ih hsep' h l₁ b l₂ rfl (fun d hd => hfirst d (List.mem_cons_of_mem _ hd)) hagain
    · rw [if_neg ha, List.map_cons, List.nodup_cons] at h
      cases l₁ with
      | nil =>
        obtain ⟨rfl, rfl⟩ := List.cons.inj hl
        by_contra hcon
        rw [not_or] at hcon
        refine h.1 (List.mem_map.mpr (exists_listed ?_ (fun c hc => hsep a List.mem_cons_self c
          (List.mem_cons_of_mem _ hc)) hagain))
        intro hn
        rcases List.mem_append.mp hn with hn | hn
        · exact ha hn
        · exact hcon.1 (List.mem_singleton.mp hn).symm
      | cons c l₁ =>
        obtain ⟨rfl, rfl⟩ := List.cons.inj hl
        have hcb : key a ≠ key b := hfirst a List.mem_cons_self
        rcases ih hsep' h.2 l₁ b l₂ rfl (fun d hd => hfirst d (List.mem_cons_of_mem _ hd)) hagain with hname | hname
        · exact .inl hname
        · rcases List.mem_append.mp hname with hname | hname
          · exact .inr hname
          · exact absurd (hsep b (by simp) a List.mem_cons_self (List.mem_singleton.mp hname).symm) hcb

end

end TinyIoT
