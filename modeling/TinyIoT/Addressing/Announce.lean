/-
Announcements of an updated resource (`handle_annc_update`): the entries of the new `at` list against the
stored ones. An entry is an address or names a whole CSE; the match is coded twice, once for the entries to
announce and once for the entries to keep, and the two differ.
-/
import TinyIoT.Addressing.Remote

namespace TinyIoT

/-! ## Entries -/

/-- What an entry of the new list is: an address, a CSE-ID, or neither. -/
inductive AtForm where
  | uri
  | cse (csi : CStr)
  | other
  deriving DecidableEq, Repr

/-- The tests at the head of both loops. The second `strchr` reads NULL where an absolute entry ends with
its service provider. -/
def atForm (v : CStr) : Option AtForm :=
  match addressingType v with
  | .absolute => match cutSlash (v.drop 2) with
    | none => none
    | some (_, rest) =>
      if rest.any (· = '/') then some .uri
      else if isSPIDLocal v then some (.cse ('/' :: rest))
      else some (.cse v)
  | .spRelative => if (v.drop 1).any (· = '/') then some .uri else some (.cse v)
  | _ => some .other

/-! ## The two loops -/

/-- The first loop's search of the stored list: is there nothing to announce? -/
def isRegistered (old : List CStr) (v : CStr) : AtForm → Bool
  | .uri => old.any fun o => v = o
  | .cse csi => old.any fun o => checkResourceCseID o csi
  | .other => true

/-- `register_at_list`. -/
def registerAtList (old : List CStr) : List CStr → Option (List CStr)
  | [] => some []
  | v :: new => do
    let f ← atForm v
    let l ← registerAtList old new
    return if isRegistered old v f then l else v :: l

/-- The second loop's search of the new list. An entry that is neither form has no CSE-ID to compare with. -/
def isKept (o : CStr) : List CStr → Option Bool
  | [] => some false
  | v :: new => match atForm v with
    | some .uri => if o.isPrefixOf v then some true else isKept o new
    | some (.cse csi) => if checkResourceCseID o csi then some true else isKept o new
    | _ => none

/-- The entries that stay and `delete_at_list`. -/
def splitAtList (new : List CStr) : List CStr → Option (List CStr × List CStr)
  | [] => some ([], [])
  | o :: old => do
    let k ← isKept o new
    let (kept, gone) ← splitAtList new old
    return if k then (o :: kept, gone) else (kept, o :: gone)

/-! ## The remote requests -/

/-- The answers of the remote CSEs. -/
structure AnncEnv where
  /-- The DELETE is answered with DELETED or NOT_FOUND. -/
  deleted : CStr → Bool
  /-- The identifier the remote CSE gives the announced resource, where it makes one. -/
  created : CStr → Option CStr

/-- `deregister_remote_annc`: the entries it keeps. -/
def deregisterRemoteAnnc (e : AnncEnv) : List CStr → Option (List CStr)
  | [] => some []
  | o :: l =>
    if o.head? = some '/' then
      match csrTarget o with
      | none => none
      | some _ =>
        if e.deleted o then (strtok (o.drop 1)).bind fun _ => deregisterRemoteAnnc e l
        else (deregisterRemoteAnnc e l).map fun kept => o :: kept
    else (strtok (o.drop 1)).bind fun _ => deregisterRemoteAnnc e l

/-- An address without its last slash. -/
def trimSlash (v : CStr) : CStr := if v.getLast? = some '/' then v.dropLast else v

/-- `create_remote_annc`: the address of the announced resource, made for an address of the service provider
only; no result where NULL is dereferenced. -/
def createRemoteAnnc (e : AnncEnv) (v : CStr) : Option (Option CStr) :=
  match addressingType v with
  | .absolute => (cutSlash ((trimSlash v).drop 2)).map fun _ => none
  | .spRelative => match trimSlash v with
    | [] => some none
    | _ :: w => some ((e.created v).map fun ri => '/' :: w.takeWhile (· ≠ '/') ++ '/' :: ri)
  | _ => some none

/-- What an update does about the announcements. -/
structure AnncUpdate where
  finalAt : List CStr
  deannounced : List CStr
  announced : List CStr

/-- `handle_annc_update`: no result where NULL is dereferenced. -/
def handleAnncUpdate (e : AnncEnv) (old new : List CStr) : Option AnncUpdate := do
  let registers ← registerAtList old new
  let (kept, gone) ← splitAtList new old
  let failed ← deregisterRemoteAnnc e gone
  let created ← registers.mapM (createRemoteAnnc e)
  return { finalAt := kept ++ failed ++ created.reduceOption, deannounced := gone, announced := registers }

/-! ## What it is for -/

/-- A stored entry: the CSE-ID of the remote CSE and the identifier it gave. -/
def StoredAt (o : CStr) : Prop := ∃ cse ri, o = '/' :: (cse ++ '/' :: ri) ∧ cse ≠ [] ∧ '/' ∉ cse

/-- The new entry equals the stored one or names its CSE. -/
def names (v o : CStr) : Bool :=
  v = o || match atForm v with
    | some (.cse csi) => checkResourceCseID o csi
    | _ => false

/-- A stored entry is kept where a new one names it, the others are de-announced and kept where that fails, and every
new entry that names no stored one is announced. -/
structure Partitioned (e : AnncEnv) (old new : List CStr) (r : AnncUpdate) : Prop where
  finalAt : r.finalAt = old.filter (fun o => new.any (names · o)) ++
    old.filter (fun o => !new.any (names · o) && !e.deleted o) ++ r.announced.filterMap fun v => (createRemoteAnnc e v).join
  deannounced : r.deannounced = old.filter fun o => !new.any (names · o)
  announced : r.announced = new.filter fun v => !old.any (names v)

/-- An entry for another CSE: relative to the service provider, or absolute with something behind the
service provider. -/
def announceable (v : CStr) : Bool :=
  match addressingType v with
  | .spRelative => true
  | .absolute => (cutSlash (v.drop 2)).any fun p => p.2 ≠ []
  | _ => false

/-- Every new entry is for another CSE, and none is an address that only begins with a stored entry which no new
entry names. -/
def Agreeing (old new : List CStr) : Prop :=
  (∀ v ∈ new, announceable v = true) ∧
    ∀ o ∈ old, ∀ v ∈ new, atForm v = some .uri → o <+: v → new.any (names · o) = true

/-! ## The forms of the entries -/

theorem cutSlash_some {s a b : CStr} (h : cutSlash s = some (a, b)) : s = a ++ '/' :: b ∧ '/' ∉ a := by
  induction s generalizing a with
  | nil => cases h
  | cons c s ih =>
    unfold cutSlash at h
    split at h
    · rename_i hc
      cases h
      exact ⟨by rw [hc]; rfl, by simp⟩
    · rename_i hc
      obtain ⟨⟨a', b'⟩, hp, he⟩ := Option.map_eq_some_iff.mp h
      cases he
      obtain ⟨rfl, hno⟩ := ih hp
      refine ⟨rfl, ?_⟩
      rw [List.mem_cons, not_or]
      exact ⟨fun he => hc he.symm, hno⟩

theorem cutSlash_none {s : CStr} (h : '/' ∉ s) : cutSlash s = none := by
  induction s with
  | nil => rfl
  | cons c s ih =>
    rw [List.mem_cons, not_or] at h
    rw [cutSlash, if_neg fun he => h.1 he.symm, ih h.2]
    rfl

theorem addressingType_stored {o : CStr} (h : StoredAt o) : addressingType o = .spRelative := by
  obtain ⟨cse, ri, rfl, hne, hno⟩ := h
  cases cse with
  | nil => exact absurd rfl hne
  | cons c cse =>
    have hc : c ≠ '/' := fun he => hno (he ▸ List.mem_cons_self)
    simp [addressingType, hc.symm]

/-- A stored entry is an address. -/
theorem atForm_stored {o : CStr} (h : StoredAt o) : atForm o = some .uri := by
  unfold atForm
  rw [addressingType_stored h]
  obtain ⟨cse, ri, rfl, -, -⟩ := h
  simp

/-- No stored entry begins with two slashes. -/
theorem not_prefix_stored {o w : CStr} (h : StoredAt o) : ¬ '/' :: '/' :: w <+: o := by
  obtain ⟨cse, ri, rfl, hne, hno⟩ := h
  cases cse with
  | nil => exact absurd rfl hne
  | cons c cse =>
    intro hp
    obtain ⟨t, ht⟩ := hp
    simp only [List.cons_append, List.cons.injEq, true_and] at ht
    exact hno (ht.1 ▸ List.mem_cons_self)

theorem checkResourceCseID_iff {o csi : CStr} : checkResourceCseID o csi = true ↔ csi ++ ['/'] <+: o :=
  List.isPrefixOf_iff_prefix

/-- The forms of the entries for another CSE. -/
theorem atForm_announceable {v : CStr} (h : announceable v = true) : ∃ f, atForm v = some f ∧ f ≠ .other := by
  unfold announceable at h
  unfold atForm
  cases hty : addressingType v with
  | spRelative =>
    dsimp only
    split <;> exact ⟨_, rfl, by simp⟩
  | absolute =>
    rw [hty] at h
    dsimp only at h ⊢
    cases hcut : cutSlash (v.drop 2) with
    | none =>
      rw [hcut] at h
      cases h
    | some p =>
      dsimp only
      split
      · exact ⟨_, rfl, by simp⟩
      · split <;> exact ⟨_, rfl, by simp⟩
  | _ =>
    rw [hty] at h
    cases h

/-! ## What the loops find -/

/-- The second loop's test of one new entry. -/
def coveredBy (v o : CStr) : Bool :=
  match atForm v with
  | some .uri => o.isPrefixOf v
  | some (.cse csi) => checkResourceCseID o csi
  | _ => false

section Loops

variable {old new : List CStr} {o v : CStr}

/-- What names a stored entry passes the test. -/
theorem coveredBy_of_names (ho : StoredAt o) (h : names v o = true) : coveredBy v o = true := by
  unfold names at h
  unfold coveredBy
  rw [Bool.or_eq_true, decide_eq_true_eq] at h
  rcases h with rfl | h
  · rw [atForm_stored ho]
    exact List.isPrefixOf_iff_prefix.mpr (List.prefix_refl _)
  · cases hf : atForm v with
    | none =>
      rw [hf] at h
      cases h
    | some f =>
      rw [hf] at h
      cases f with
      | cse csi => exact h
      | _ => cases h

/-- The first loop finds a stored entry if and only if the new entry names one. -/
theorem isRegistered_eq (hold : ∀ o ∈ old, StoredAt o) {f : AtForm} (hf : atForm v = some f) (hne : f ≠ .other) :
    isRegistered old v f = old.any (names v) := by
  have hany : ∀ p q : CStr → Bool, (∀ o ∈ old, p o = q o) → old.any p = old.any q := by
    intro p q h
    induction old with
    | nil => rfl
    | cons o old ih =>
      rw [List.any_cons, List.any_cons, h o List.mem_cons_self,
        ih (fun o ho => hold o (List.mem_cons_of_mem _ ho)) fun o ho => h o (List.mem_cons_of_mem _ ho)]
  cases f with
  | other => exact absurd rfl hne
  | uri =>
    refine hany _ _ fun o _ => ?_
    simp only [names, hf, Bool.or_false]
  | cse csi =>
    refine hany _ _ fun o ho => ?_
    have hvo : v ≠ o := by
      rintro rfl
      rw [atForm_stored (hold v ho)] at hf
      cases hf
    simp only [names, hf, hvo, decide_false, Bool.false_or]

theorem registerAtList_some {l : List CStr} (h : registerAtList old new = some l) :
    (∀ v ∈ new, ∃ f, atForm v = some f) ∧ l = new.filter fun v => !(atForm v).any (isRegistered old v) := by
  induction new generalizing l with
  | nil =>
    cases h
    exact ⟨by simp, rfl⟩
  | cons v new ih =>
    unfold registerAtList at h
    simp only [Option.bind_eq_bind] at h
    obtain ⟨f, hf, h⟩ := Option.bind_eq_some_iff.mp h
    obtain ⟨l', hl', h⟩ := Option.bind_eq_some_iff.mp h
    obtain ⟨hforms, rfl⟩ := ih hl'
    cases h
    refine ⟨fun w hw => ?_, ?_⟩
    · rcases List.mem_cons.mp hw with rfl | hw
      · exact ⟨f, hf⟩
      · exact hforms w hw
    · rw [List.filter_cons, hf, Option.any_some]
      cases isRegistered old v f <;> simp

theorem registerAtList_ok (h : ∀ v ∈ new, ∃ f, atForm v = some f) : ∃ l, registerAtList old new = some l := by
  induction new with
  | nil => exact ⟨[], rfl⟩
  | cons v new ih =>
    obtain ⟨f, hf⟩ := h v List.mem_cons_self
    obtain ⟨l, hl⟩ := ih fun w hw => h w (List.mem_cons_of_mem _ hw)
    exact ⟨_, by simp only [registerAtList, hf, hl, Option.bind_eq_bind, Option.bind_some]; rfl⟩

theorem isKept_some {b : Bool} (h : isKept o new = some b) : b = new.any (coveredBy · o) := by
  induction new with
  | nil =>
    cases h
    rfl
  | cons v new ih =>
    unfold isKept at h
    rw [List.any_cons]
    unfold coveredBy
    cases hf : atForm v with
    | none =>
      rw [hf] at h
      cases h
    | some f =>
      rw [hf] at h
      cases f with
      | other => cases h
      | uri =>
        dsimp only at h ⊢
        split at h
        · rename_i hp
          cases h
          rw [hp, Bool.true_or]
        · rename_i hp
          rw [ih h, Bool.eq_false_iff.mpr hp, Bool.false_or]
          rfl
      | cse csi =>
        dsimp only at h ⊢
        split at h
        · rename_i hp
          cases h
          rw [hp, Bool.true_or]
        · rename_i hp
          rw [ih h, Bool.eq_false_iff.mpr hp, Bool.false_or]
          rfl

theorem isKept_ok (h : ∀ v ∈ new, announceable v = true) (o : CStr) : ∃ b, isKept o new = some b := by
  induction new with
  | nil => exact ⟨false, rfl⟩
  | cons v new ih =>
    obtain ⟨f, hf, hne⟩ := atForm_announceable (h v List.mem_cons_self)
    obtain ⟨b, hb⟩ := ih fun w hw => h w (List.mem_cons_of_mem _ hw)
    unfold isKept
    rw [hf, hb]
    cases f with
    | other => exact absurd rfl hne
    | _ =>
      dsimp only
      split <;> exact ⟨_, rfl⟩

theorem splitAtList_some {x : List CStr × List CStr} (h : splitAtList new old = some x) :
    x = (old.filter fun o => new.any (coveredBy · o), old.filter fun o => !new.any (coveredBy · o)) := by
  induction old generalizing x with
  | nil =>
    cases h
    rfl
  | cons o old ih =>
    unfold splitAtList at h
    simp only [Option.bind_eq_bind] at h
    obtain ⟨k, hk, h⟩ := Option.bind_eq_some_iff.mp h
    obtain ⟨⟨kept, gone⟩, hs, h⟩ := Option.bind_eq_some_iff.mp h
    cases h
    have hk := isKept_some hk
    cases ih hs
    subst hk
    cases hc : new.any (coveredBy · o) <;> simp [hc]

theorem splitAtList_ok (h : ∀ v ∈ new, announceable v = true) (old : List CStr) : ∃ x, splitAtList new old = some x := by
  induction old with
  | nil => exact ⟨_, rfl⟩
  | cons o old ih =>
    obtain ⟨k, hk⟩ := isKept_ok h o
    obtain ⟨x, hx⟩ := ih
    exact ⟨_, by simp only [splitAtList, hk, hx, Option.bind_eq_bind, Option.bind_some]; rfl⟩

end Loops

/-! ## The requests -/

section Requests

variable {e : AnncEnv} {v : CStr}

theorem deregisterRemoteAnnc_stored {l : List CStr} (h : ∀ o ∈ l, StoredAt o) :
    deregisterRemoteAnnc e l = some (l.filter fun o => !e.deleted o) := by
  induction l with
  | nil => rfl
  | cons o l ih =>
    have ih := ih fun o ho => h o (List.mem_cons_of_mem _ ho)
    have ho := h o List.mem_cons_self
    have htarget : ∃ t, csrTarget o = some t := by
      unfold csrTarget
      rw [addressingType_stored ho]
      exact ⟨_, rfl⟩
    obtain ⟨t, ht⟩ := htarget
    obtain ⟨cse, ri, rfl, hne, hno⟩ := ho
    have htok : ∃ k, strtok (('/' :: (cse ++ '/' :: ri)).drop 1) = some k := by
      cases cse with
      | nil => exact absurd rfl hne
      | cons c cse =>
        have hc : c ≠ '/' := fun he => hno (he ▸ List.mem_cons_self)
        unfold strtok
        simp [hc]
    obtain ⟨k, hk⟩ := htok
    unfold deregisterRemoteAnnc
    rw [if_pos List.head?_cons, ht, hk, ih, List.filter_cons]
    cases e.deleted ('/' :: (cse ++ '/' :: ri)) <;> simp

theorem eq_of_absolute (h : addressingType v = .absolute) : ∃ w, v = '/' :: '/' :: w := by
  unfold addressingType at h
  split at h
  · rename_i hp
    obtain ⟨w, hw⟩ := List.isPrefixOf_iff_prefix.mp hp
    exact ⟨w, hw.symm⟩
  · split at h
    · cases h
    · split at h <;> cases h

theorem cutSlash_append {a b : CStr} (h : '/' ∉ a) : cutSlash (a ++ '/' :: b) = some (a, b) := by
  induction a with
  | nil => rfl
  | cons c a ih =>
    rw [List.mem_cons, not_or] at h
    rw [List.cons_append, cutSlash, if_neg fun he => h.1 he.symm, ih h.2]
    rfl

/-- Where something follows the service provider, something is left without the last slash. -/
theorem trimSlash_append {a b : CStr} (h : b ≠ []) : ∃ c, trimSlash (a ++ b) = a ++ c := by
  unfold trimSlash
  split
  · exact ⟨b.dropLast, List.dropLast_append_of_ne_nil h⟩
  · exact ⟨b, rfl⟩

/-- Nothing is dereferenced for an entry for another CSE. -/
theorem createRemoteAnnc_ok (h : announceable v = true) : ∃ r, createRemoteAnnc e v = some r := by
  unfold createRemoteAnnc
  unfold announceable at h
  cases hty : addressingType v with
  | spRelative =>
    dsimp only
    split <;> exact ⟨_, rfl⟩
  | absolute =>
    rw [hty] at h
    dsimp only at h ⊢
    obtain ⟨w, rfl⟩ := eq_of_absolute hty
    obtain ⟨⟨sp, rest⟩, hcut, hrest⟩ := (Option.any_eq_true _ _).mp h
    obtain ⟨hw, hno⟩ := cutSlash_some hcut
    have hw : w = sp ++ '/' :: rest := hw
    have hne : rest ≠ [] := by simpa using hrest
    obtain ⟨c, hc⟩ := trimSlash_append (a := '/' :: '/' :: (sp ++ ['/'])) hne
    have htrim : (trimSlash ('/' :: '/' :: w)).drop 2 = sp ++ '/' :: c := by
      rw [hw]
      have hshape : '/' :: '/' :: (sp ++ '/' :: rest) = ('/' :: '/' :: (sp ++ ['/'])) ++ rest := by simp
      rw [hshape, hc]
      simp
    rw [htrim, cutSlash_append hno]
    exact ⟨_, rfl⟩
  | _ =>
    rw [hty] at h
    cases h

/-- An absolute entry with nothing but a slash behind its service provider has no segment for `strchr` to start at. -/
theorem createRemoteAnnc_none {w sp : CStr} (hv : addressingType ('/' :: '/' :: w) = .absolute)
    (h : cutSlash w = some (sp, [])) : createRemoteAnnc e ('/' :: '/' :: w) = none := by
  obtain ⟨rfl, hno⟩ := cutSlash_some h
  have htrim : trimSlash ('/' :: '/' :: (sp ++ ['/'])) = '/' :: '/' :: sp := by
    have hlast : ('/' :: '/' :: (sp ++ ['/'])).getLast? = some '/' := by
      rw [show '/' :: '/' :: (sp ++ ['/']) = ('/' :: '/' :: sp) ++ ['/'] by simp, List.getLast?_append]
      rfl
    unfold trimSlash
    rw [if_pos hlast, show '/' :: '/' :: (sp ++ ['/']) = ('/' :: '/' :: sp) ++ ['/'] by simp, List.dropLast_concat]
  unfold createRemoteAnnc
  rw [hv]
  show Option.map _ (cutSlash ((trimSlash ('/' :: '/' :: (sp ++ ['/']))).drop 2)) = none
  rw [htrim]
  show Option.map _ (cutSlash sp) = none
  rw [cutSlash_none hno]
  rfl

theorem mapM_createRemoteAnnc {l : List CStr} {r : List (Option CStr)} (h : l.mapM (createRemoteAnnc e) = some r) :
    (∀ v ∈ l, ∃ x, createRemoteAnnc e v = some x) ∧ r.reduceOption = l.filterMap fun v => (createRemoteAnnc e v).join := by
  induction l generalizing r with
  | nil =>
    cases h
    exact ⟨by simp, rfl⟩
  | cons v l ih =>
    rw [List.mapM_cons] at h
    obtain ⟨x, hx, h⟩ := Option.bind_eq_some_iff.mp h
    obtain ⟨r', hr', h⟩ := Option.bind_eq_some_iff.mp h
    obtain ⟨hall, hred⟩ := ih hr'
    cases h
    refine ⟨fun w hw => ?_, ?_⟩
    · rcases List.mem_cons.mp hw with rfl | hw
      · exact ⟨x, hx⟩
      · exact hall w hw
    · rw [List.filterMap_cons, hx, ← hred]
      cases x <;> rfl

theorem mapM_createRemoteAnnc_ok {l : List CStr} (h : ∀ v ∈ l, ∃ x, createRemoteAnnc e v = some x) :
    ∃ r, l.mapM (createRemoteAnnc e) = some r := by
  induction l with
  | nil => exact ⟨[], rfl⟩
  | cons v l ih =>
    obtain ⟨x, hx⟩ := h v List.mem_cons_self
    obtain ⟨r, hr⟩ := ih fun w hw => h w (List.mem_cons_of_mem _ hw)
    exact ⟨x :: r, by rw [List.mapM_cons, hx, hr]; rfl⟩

end Requests

/-! ## The partition -/

section Update

variable {e : AnncEnv} {old new : List CStr}

/-- The parts of an update that ends. -/
theorem handleAnncUpdate_some {r : AnncUpdate} (h : handleAnncUpdate e old new = some r) :
    registerAtList old new = some r.announced ∧ (∃ kept, splitAtList new old = some (kept, r.deannounced)) ∧
      ∀ v ∈ r.announced, ∃ x, createRemoteAnnc e v = some x := by
  unfold handleAnncUpdate at h
  simp only [Option.bind_eq_bind] at h
  obtain ⟨registers, hreg, h⟩ := Option.bind_eq_some_iff.mp h
  obtain ⟨⟨kept, gone⟩, hsplit, h⟩ := Option.bind_eq_some_iff.mp h
  obtain ⟨failed, -, h⟩ := Option.bind_eq_some_iff.mp h
  obtain ⟨created, hcreate, h⟩ := Option.bind_eq_some_iff.mp h
  cases h
  exact ⟨hreg, ⟨kept, hsplit⟩, (mapM_createRemoteAnnc hcreate).1⟩

/-- Where the new list agrees with the stored one, it is partitioned. -/
theorem partitioned_of_agreeing (hold : ∀ o ∈ old, StoredAt o) (h : Agreeing old new) :
    ∃ r, handleAnncUpdate e old new = some r ∧ Partitioned e old new r := by
  obtain ⟨hnew, hagree⟩ := h
  have hcover : ∀ o ∈ old, new.any (coveredBy · o) = new.any (names · o) := by
    intro o ho
    rw [Bool.eq_iff_iff]
    constructor
    · intro hc
      obtain ⟨v, hv, hc⟩ := List.any_eq_true.mp hc
      unfold coveredBy at hc
      cases hf : atForm v with
      | none =>
        rw [hf] at hc
        cases hc
      | some f =>
        rw [hf] at hc
        cases f with
        | other => cases hc
        | uri => exact hagree o ho v hv hf (List.isPrefixOf_iff_prefix.mp hc)
        | cse csi =>
          have hc : checkResourceCseID o csi = true := hc
          exact List.any_eq_true.mpr ⟨v, hv, by simp [names, hf, hc]⟩
    · intro hn
      obtain ⟨v, hv, hn⟩ := List.any_eq_true.mp hn
      exact List.any_eq_true.mpr ⟨v, hv, coveredBy_of_names (hold o ho) hn⟩
  obtain ⟨l, hreg⟩ : ∃ l, registerAtList old new = some l :=
    registerAtList_ok fun v hv => (atForm_announceable (hnew v hv)).imp fun _ h => h.1
  have hl : l = new.filter fun v => !old.any (names v) := by
    rw [(registerAtList_some hreg).2]
    refine List.filter_congr fun v hv => ?_
    obtain ⟨f, hf, hne⟩ := atForm_announceable (hnew v hv)
    rw [hf, Option.any_some, isRegistered_eq hold hf hne]
  obtain ⟨x, hsplit⟩ := splitAtList_ok hnew old
  have hx : x = (old.filter fun o => new.any (names · o), old.filter fun o => !new.any (names · o)) := by
    rw [splitAtList_some hsplit]
    refine Prod.ext (List.filter_congr hcover) (List.filter_congr fun o ho => ?_)
    rw [hcover o ho]
  subst hx
  obtain ⟨created, hcreated⟩ := mapM_createRemoteAnnc_ok (e := e) (l := l) fun v hv => by
    rw [hl] at hv
    exact createRemoteAnnc_ok (hnew v (List.mem_of_mem_filter hv))
  have hgone := deregisterRemoteAnnc_stored (e := e) fun o ho =>
    hold o (List.mem_of_mem_filter (p := fun o => !new.any (names · o)) ho)
  have hrun : handleAnncUpdate e old new = some
      ⟨old.filter (fun o => new.any (names · o)) ++ (old.filter fun o => !new.any (names · o)).filter (fun o => !e.deleted o) ++
        created.reduceOption, old.filter fun o => !new.any (names · o), l⟩ := by
    simp only [handleAnncUpdate, hreg, hsplit, hgone, hcreated, Option.bind_eq_bind, Option.bind_some]
    rfl
  refine ⟨_, hrun, ⟨?_, rfl, hl⟩⟩
  rw [(mapM_createRemoteAnnc hcreated).2, List.filter_filter]
  simp only [Bool.and_comm]

/-- Every new entry of an update that partitions is for another CSE. -/
theorem announceable_of_partitioned (hold : ∀ o ∈ old, StoredAt o) {r : AnncUpdate} (he : handleAnncUpdate e old new = some r)
    (hp : Partitioned e old new r) : ∀ v ∈ new, announceable v = true := by
  obtain ⟨hreg, -, hcreate⟩ := handleAnncUpdate_some he
  obtain ⟨hforms, hann⟩ := registerAtList_some hreg
  intro v hv
  obtain ⟨f, hf⟩ := hforms v hv
  unfold announceable
  cases hty : addressingType v with
  | spRelative => rfl
  | absolute =>
    dsimp only
    obtain ⟨w, rfl⟩ := eq_of_absolute hty
    unfold atForm at hf
    rw [hty] at hf
    dsimp only at hf
    cases hcut : cutSlash (('/' :: '/' :: w).drop 2) with
    | none =>
      rw [hcut] at hf
      cases hf
    | some p =>
      obtain ⟨sp, rest⟩ := p
      rw [Option.any_some, decide_eq_true_eq]
      rintro rfl
      -- the entry names no stored one, so it is announced, and that reads NULL
      have hnames : ∀ o ∈ old, names ('/' :: '/' :: w) o = false := by
        intro o ho
        rw [Bool.eq_false_iff]
        intro hn
        have hcov := coveredBy_of_names (hold o ho) hn
        have hform : atForm ('/' :: '/' :: w) = some (.cse (if isSPIDLocal ('/' :: '/' :: w) then ['/'] else '/' :: '/' :: w)) := by
          unfold atForm
          rw [hty]
          dsimp only
          rw [hcut]
          simp [apply_ite]
        have hslashes : ∀ csi, (∃ u, csi ++ ['/'] = '/' :: '/' :: u) → checkResourceCseID o csi = true → False := by
          rintro csi ⟨u, hu⟩ hc
          exact not_prefix_stored (hold o ho) (hu ▸ checkResourceCseID_iff.mp hc)
        unfold coveredBy at hcov
        rw [hform] at hcov
        refine hslashes _ ?_ hcov
        split
        · exact ⟨[], rfl⟩
        · exact ⟨w ++ ['/'], rfl⟩
      have hmem : '/' :: '/' :: w ∈ r.announced := by
        rw [hp.announced, List.mem_filter, Bool.not_eq_true']
        exact ⟨hv, List.any_eq_false.mpr fun o ho => by rw [hnames o ho]; decide⟩
      obtain ⟨x, hx⟩ := hcreate _ hmem
      rw [createRemoteAnnc_none hty hcut] at hx
      cases hx
  | _ =>
    have hother : atForm v = some .other := by
      unfold atForm
      rw [hty]
    have hnot : v ∉ r.announced := by
      rw [hann, List.mem_filter, hother]
      simp [isRegistered]
    have hnamed : old.any (names v) = true := by
      by_contra hn
      refine hnot ?_
      rw [hp.announced, List.mem_filter]
      exact ⟨hv, by simpa using hn⟩
    obtain ⟨o, ho, hn⟩ := List.any_eq_true.mp hnamed
    have hcov := coveredBy_of_names (hold o ho) hn
    unfold coveredBy at hcov
    rw [hother] at hcov
    cases hcov

/-- An update of the announcements ends without reading NULL and partitions both lists, if and only if every new entry
is for another CSE and none is an address that only begins with a stored entry which no new entry names. -/
theorem partitioned_iff_agreeing (hold : ∀ o ∈ old, StoredAt o) :
    (∃ r, handleAnncUpdate e old new = some r ∧ Partitioned e old new r) ↔ Agreeing old new := by
  refine ⟨fun ⟨r, he, hp⟩ => ⟨announceable_of_partitioned hold he hp, fun o ho v hv hf hpre => ?_⟩, partitioned_of_agreeing hold⟩
  obtain ⟨-, ⟨kept, hsplit⟩, -⟩ := handleAnncUpdate_some he
  have hgone : r.deannounced = old.filter fun o => !new.any (coveredBy · o) := congrArg Prod.snd (splitAtList_some hsplit)
  have hcov : new.any (coveredBy · o) = true := List.any_eq_true.mpr ⟨v, hv, by
    rw [coveredBy, hf]
    exact List.isPrefixOf_iff_prefix.mpr hpre⟩
  by_contra hn
  have hmem : o ∈ r.deannounced := by
    rw [hp.deannounced, List.mem_filter]
    exact ⟨ho, by simpa using hn⟩
  rw [hgone, List.mem_filter, hcov] at hmem
  exact absurd hmem.2 (by decide)

end Update

/-! ## Two updates -/

/-- Remote CSEs that answer every request. -/
def willing : AnncEnv := ⟨fun _ => true, fun _ => some "new".toList⟩

/-- The announcement at one CSE stays, that at another is taken back, and one is made at a third. -/
theorem partitioned_iff_agreeing_three : ∃ r,
    handleAnncUpdate willing ["/id-mn/a1".toList, "/id-in/b2".toList] ["/id-mn".toList, "/id-asn".toList] = some r ∧
      Partitioned willing ["/id-mn/a1".toList, "/id-in/b2".toList] ["/id-mn".toList, "/id-asn".toList] r := by
  refine (partitioned_iff_agreeing ?_).2 ⟨by decide, fun o _ v hv hf => ?_⟩
  · intro o ho
    simp only [List.mem_cons, List.not_mem_nil, or_false] at ho
    rcases ho with rfl | rfl
    · exact ⟨"id-mn".toList, "a1".toList, rfl, by decide, by decide⟩
    · exact ⟨"id-in".toList, "b2".toList, rfl, by decide, by decide⟩
  · simp only [List.mem_cons, List.not_mem_nil, or_false] at hv
    rcases hv with rfl | rfl
    · exact absurd hf (by decide)
    · exact absurd hf (by decide)

/-- A new entry that is relative to the CSE is passed over by the first loop and compared as NULL by the second. -/
theorem not_partitioned_cseRelative : ¬ ∀ (e : AnncEnv) (old new : List CStr), (∀ o ∈ old, StoredAt o) →
    ∃ r, handleAnncUpdate e old new = some r ∧ Partitioned e old new r := by
  intro h
  have hold : ∀ o ∈ ["/id-mn/a1".toList], StoredAt o := by
    intro o ho
    rw [List.mem_singleton.mp ho]
    exact ⟨"id-mn".toList, "a1".toList, rfl, by decide, by decide⟩
  obtain ⟨r, hr, -⟩ := h willing ["/id-mn/a1".toList] ["id-mn".toList] hold
  have hnone : (handleAnncUpdate willing ["/id-mn/a1".toList] ["id-mn".toList]).isNone = true := by decide
  rw [hr] at hnone
  cases hnone

end TinyIoT
