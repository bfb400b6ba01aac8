/-
Where a request for another CSE goes (`find_csr_rtnode_by_uri`): the identifier cut out of the address
and its search through the registered remoteCSEs, with the registrar behind them. The search compares
`/` and the CSE-ID for an address of the same service provider, but the whole address up to the end of
the CSE-ID for an absolute one.
-/
import Mathlib.Data.List.TakeWhile
import TinyIoT.Server.Address

namespace TinyIoT

/-! ## The search -/

/-- The first `strtok_r` at slashes: the slashes it skips and the token. The buffer then ends with the token. -/
def strtok (s : CStr) : Option (CStr × CStr) :=
  let token := (s.dropWhile (· = '/')).takeWhile (· ≠ '/')
  if token = [] then none else some (s.takeWhile (· = '/'), token)

/-- An absolute address up to the end of the token after the service provider. -/
def wholeUpTo (spid : CStr) (t : CStr × CStr) : CStr := ['/', '/'] ++ spid ++ '/' :: (t.1 ++ t.2)

/-- `target_uri` at the comparison: no result where NULL is dereferenced, NULL where no token is left. -/
def csrTarget (uri : CStr) : Option (Option CStr) :=
  match addressingType uri with
  | .spRelative => some ((strtok (uri.drop 1)).map fun t => '/' :: (t.1 ++ t.2))
  | .absolute =>
    -- the test reads `target_uri`, which is still NULL
    if (none : Option CStr).any isSPIDLocal then (cutSlash (uri.drop 2)).map fun p => (strtok p.2).map fun t => '/' :: (t.1 ++ t.2)
    else (cutSlash (uri.drop 2)).map fun p => (strtok p.2).map (wholeUpTo p.1)
  | _ => some none

/-- The comparison with `dcse`: it stops at the first entry that is equal and fails at one that is no string. -/
def dcseHas (target : CStr) : List Json → Option Bool
  | [] => some false
  | j :: l => match j.valuestring with
    | none => none
    | some v => if v = target then some true else dcseHas target l

/-- The comparison with one remoteCSE. -/
def csrMatches (target : CStr) (csr : Obj) : Option Bool :=
  match csr.str .csi with
  | none => none
  | some csi => if csi = target then some true else dcseHas target (csr.arr .dcse)

/-- The loop over `csr_list`. -/
def searchCsr (target : CStr) : List RTNode → Option (Option RTNode)
  | [] => some none
  | csr :: l => match csrMatches target csr.obj with
    | none => none
    | some true => some (some csr)
    | some false => searchCsr target l

/-- `find_csr_rtnode_by_uri` with the registered remoteCSEs and the registrar: no result where NULL is
dereferenced. -/
def findCsrRtnodeByUri (csrs : List RTNode) (registrar : Option RTNode) : Option CStr → Option (Option RTNode)
  | none => some none
  | some uri => match csrTarget uri with
    | none => none
    | some none => some none
    | some (some target) => (searchCsr target csrs).map fun csr => csr.or registrar

/-! ## What it is for -/

/-- The CSE-ID of an address that names its CSE: the first segment, or the one after the service provider. -/
def cseIdSegment (uri : CStr) : Option CStr :=
  match addressingType uri with
  | .spRelative => (tokens (uri.drop 1)).head?
  | .absolute => (cutSlash (uri.drop 2)).bind fun p => (tokens p.2).head?
  | _ => none

/-- The identifiers a remoteCSE is known by; `none` stands for a value that is no string. -/
def RTNode.cseNames (csr : RTNode) : List (Option CStr) :=
  csr.obj.str .csi :: (csr.obj.arr .dcse).map Json.valuestring

/-- The remoteCSE has this identifier, or a CSE below it has. -/
def RTNode.carries (name : CStr) (csr : RTNode) : Bool := csr.cseNames.any fun v => v = some name

/-- The remoteCSE an address is for: the first that carries its CSE-ID, else the registrar. -/
def namedCsr (csrs : List RTNode) (registrar : Option RTNode) (uri : CStr) : Option RTNode :=
  ((cseIdSegment uri).bind fun seg => csrs.find? (RTNode.carries ('/' :: seg))).or registrar

/-- A request for another CSE goes where its address says; another address is answered without a failure. -/
def RoutedByName (csrs : List RTNode) (registrar : Option RTNode) (uri : CStr) : Prop :=
  match addressingType uri with
  | .spRelative | .absolute => findCsrRtnodeByUri csrs registrar (some uri) = some (namedCsr csrs registrar uri)
  | _ => (findCsrRtnodeByUri csrs registrar (some uri)).isSome = true

/-- Every identifier compared before the first equal one is a string. -/
def comparable (target : CStr) (csrs : List RTNode) : Bool :=
  ((csrs.flatMap RTNode.cseNames).takeWhile fun v => v ≠ some target).all Option.isSome

/-- The searches for two identifiers end at the same place: nobody carries either, or the first that
carries one carries both, or it is the registrar and what it does not carry nobody carries. -/
def SameRoute (csrs : List RTNode) (registrar : Option RTNode) (a b : CStr) : Prop :=
  ∀ c, csrs.find? (fun c => c.carries a || c.carries b) = some c → (c.carries a && c.carries b) = true ∨
    registrar = some c ∧ ∀ d ∈ csrs, (d.carries a → c.carries a) ∧ (d.carries b → c.carries b)

/-- When a request for another CSE goes where its address says. -/
def Routable (csrs : List RTNode) (registrar : Option RTNode) (uri : CStr) : Prop :=
  match addressingType uri with
  | .spRelative => match cseIdSegment uri with
    | none => registrar = none
    | some seg => comparable ('/' :: seg) csrs = true
  | .absolute => match cutSlash (uri.drop 2) with
    | none => False
    | some (spid, rest) => match strtok rest with
      | none => registrar = none
      | some t => comparable (wholeUpTo spid t) csrs = true ∧
        SameRoute csrs registrar (wholeUpTo spid t) ('/' :: t.2)
  | _ => True

/-! ## Tokens -/

theorem head?_tokens (s : CStr) : (tokens s).head? = (strtok s).map Prod.snd := by
  induction s with
  | nil => rfl
  | cons c s ih =>
    by_cases hc : c = '/'
    · subst hc
      rw [tokens, if_pos rfl, ih]
      unfold strtok
      simp only [List.dropWhile_cons, decide_true, if_true]
      split <;> rfl
    · have htok : strtok (c :: s) = some ([], c :: s.takeWhile (· ≠ '/')) := by
        simp [strtok, hc]
      rw [tokens, if_neg hc, htok]
      cases s with
      | nil => rfl
      | cons d s =>
        by_cases hd : d = '/'
        · simp [hd]
        · -- the token goes on in the tail, where it is the first one
          have hd' : strtok (d :: s) = some ([], d :: s.takeWhile (· ≠ '/')) := by
            simp [strtok, hd]
          rw [hd'] at ih
          rw [if_neg (by simp [hd])]
          cases ht : tokens (d :: s) with
          | nil => rw [ht] at ih; cases ih
          | cons t ts =>
            rw [ht] at ih
            cases ih
            simp [hd]

/-! ## The loop -/

section Search

variable {target : CStr}

/-- The comparisons with the entries of `dcse` or with all identifiers, up to the first equal one. -/
theorem dcseHas_eq (l : List Json) : dcseHas target l =
    if ((l.map Json.valuestring).takeWhile fun v => v ≠ some target).all Option.isSome then
      some ((l.map Json.valuestring).any fun v => v = some target) else none := by
  induction l with
  | nil => rfl
  | cons j l ih =>
    unfold dcseHas
    cases hj : j.valuestring with
    | none => simp [hj]
    | some v =>
      by_cases hv : v = target
      · simp [hj, hv]
      · simp [hj, hv, ih]

theorem csrMatches_eq (csr : RTNode) : csrMatches target csr.obj =
    if (csr.cseNames.takeWhile fun v => v ≠ some target).all Option.isSome then
      some (csr.carries target) else none := by
  unfold csrMatches RTNode.carries RTNode.cseNames
  cases hc : csr.obj.str .csi with
  | none => simp
  | some csi =>
    by_cases h : csi = target
    · simp [h]
    · simp [h, dcseHas_eq]

/-- The identifiers of the remaining remoteCSEs count only where this one does not carry the target. -/
theorem comparable_cons (csr : RTNode) (l : List RTNode) : comparable target (csr :: l) =
    ((csr.cseNames.takeWhile fun v => v ≠ some target).all Option.isSome &&
      (csr.carries target || comparable target l)) := by
  unfold comparable
  rw [List.flatMap_cons, List.takeWhile_append]
  cases hc : csr.carries target with
  | true =>
    rw [if_neg, Bool.true_or, Bool.and_true]
    intro h
    have hall := List.takeWhile_eq_self_iff.mp ((List.takeWhile_prefix _).eq_of_length h)
    obtain ⟨v, hv, hvt⟩ := List.any_eq_true.mp hc
    have hne := hall v hv
    simp only [decide_eq_true_eq] at hvt hne
    exact hne hvt
  | false =>
    have hall : csr.cseNames.takeWhile (fun v => v ≠ some target) = csr.cseNames := by
      refine List.takeWhile_eq_self_iff.mpr fun v hv => ?_
      simpa using List.any_eq_false.mp hc v hv
    rw [hall, if_pos rfl, List.all_append, Bool.false_or]

theorem searchCsr_eq (csrs : List RTNode) : searchCsr target csrs =
    if comparable target csrs = true then some (csrs.find? (RTNode.carries target)) else none := by
  induction csrs with
  | nil => rfl
  | cons csr l ih =>
    unfold searchCsr
    rw [csrMatches_eq, comparable_cons, List.find?_cons, ih]
    cases (csr.cseNames.takeWhile fun v => v ≠ some target).all Option.isSome with
    | false => rfl
    | true =>
      cases csr.carries target with
      | true => rfl
      | false => rfl

end Search

theorem findCsr_eq {csrs : List RTNode} {registrar : Option RTNode} {uri target : CStr}
    (h : csrTarget uri = some (some target)) : findCsrRtnodeByUri csrs registrar (some uri) =
    if comparable target csrs = true then some ((csrs.find? (RTNode.carries target)).or registrar) else none := by
  unfold findCsrRtnodeByUri
  simp only [h, searchCsr_eq]
  split <;> rfl

theorem findCsr_null {csrs : List RTNode} {registrar : Option RTNode} {uri : CStr} (h : csrTarget uri = some none) :
    findCsrRtnodeByUri csrs registrar (some uri) = some none := by
  unfold findCsrRtnodeByUri
  simp only [h]

/-! ## Two searches -/

/-- Where the first element of either kind is only of the first, the search for the second finds it only as
the fallback. -/
theorem find?_or_eq_some_iff {α : Type} {q : α → Bool} {l : List α} {r : Option α} {c : α} (hc : q c = false) :
    (l.find? q).or r = some c ↔ r = some c ∧ ∀ d ∈ l, q d = false := by
  constructor
  · intro h
    cases hf : l.find? q with
    | none =>
      rw [hf] at h
      exact ⟨h, fun d hd => by simpa using List.find?_eq_none.mp hf d hd⟩
    | some d =>
      rw [hf] at h
      cases h
      rw [List.find?_some hf] at hc
      cases hc
  · rintro ⟨hr, hq⟩
    rw [List.find?_eq_none.mpr fun d hd => by simp [hq d hd], Option.none_or, hr]

/-- Searches for two kinds of elements, with the same fallback, find the same. -/
theorem find?_or_eq_iff {α : Type} {p q : α → Bool} {l : List α} {r : Option α} :
    (l.find? p).or r = (l.find? q).or r ↔
      ∀ c, l.find? (fun c => p c || q c) = some c → (p c && q c) = true ∨
        r = some c ∧ ∀ d ∈ l, (p d → p c) ∧ (q d → q c) := by
  cases hf : l.find? fun c => p c || q c with
  | none =>
    have hn : ∀ d ∈ l, p d = false ∧ q d = false := fun d hd => by simpa using List.find?_eq_none.mp hf d hd
    rw [List.find?_eq_none.mpr fun d hd => by simp [(hn d hd).1], List.find?_eq_none.mpr fun d hd => by simp [(hn d hd).2]]
    simp
  | some c =>
    obtain ⟨hpq, as, bs, hl, has⟩ := List.find?_eq_some_iff_append.mp hf
    have hfst : ∀ {f : α → Bool}, (∀ d ∈ as, f d = false) → f c = true → l.find? f = some c := fun hn hc => by
      rw [hl, List.find?_append, List.find?_eq_none.mpr fun d hd => by simp [hn d hd], Option.none_or,
        List.find?_cons_of_pos hc]
    have hp : p c = true → l.find? p = some c := hfst fun d hd => (by simpa using has d hd : p d = false ∧ _).1
    have hq : q c = true → l.find? q = some c := hfst fun d hd => (by simpa using has d hd : _ ∧ q d = false).2
    have hone : ∀ {P : α → Prop}, (∀ c', some c = some c' → P c') ↔ P c := by simp
    rw [hone]
    -- the first of either kind is of both, or the search for the other kind passes it
    cases hpc : p c with
    | true =>
      rw [hp hpc, Option.some_or]
      cases hqc : q c with
      | true => simp [hq hqc]
      | false =>
        rw [eq_comm, find?_or_eq_some_iff hqc]
        simp
    | false =>
      have hqc : q c = true := by simpa [hpc] using hpq
      rw [hq hqc, Option.some_or, find?_or_eq_some_iff hpc]
      simp [hqc]

/-! ## Where a request goes -/

theorem not_slash_of_spRelative {uri : CStr} (h : addressingType uri = .spRelative) :
    (uri.drop 1).takeWhile (· = '/') = [] := by
  unfold addressingType at h
  split at h
  · cases h
  · rename_i hd
    split at h
    · rename_i hs
      cases uri with
      | nil => rfl
      | cons c u =>
        cases u with
        | nil => rfl
        | cons d u =>
          have hc : c = '/' := by
            have hs : ('/' == c) = true := by simpa using hs
            exact (beq_iff_eq.mp hs).symm
          have hne : d ≠ '/' := fun hd' => hd (by simp [hc, hd'])
          simp [hne]
    · split at h <;> cases h

theorem routedByName_iff (csrs : List RTNode) (registrar : Option RTNode) (uri : CStr) :
    RoutedByName csrs registrar uri ↔ Routable csrs registrar uri := by
  unfold RoutedByName Routable namedCsr cseIdSegment
  cases hty : addressingType uri with
  | cseRelative => simp [findCsrRtnodeByUri, csrTarget, hty]
  | protocolBinding => simp [findCsrRtnodeByUri, csrTarget, hty]
  | spRelative =>
    have hT : csrTarget uri = some ((strtok (uri.drop 1)).map fun t => '/' :: t.2) := by
      unfold csrTarget
      simp only [hty]
      unfold strtok
      rw [not_slash_of_spRelative hty]
      by_cases ht : ((uri.drop 1).dropWhile (· = '/')).takeWhile (· ≠ '/') = []
      · simp only [ht, if_true, Option.map_none]
      · simp only [ht, if_false, Option.map_some, List.nil_append]
    simp only [head?_tokens]
    cases ht : strtok (uri.drop 1) with
    | none =>
      rw [ht] at hT
      rw [findCsr_null hT]
      simp [eq_comm]
    | some t =>
      rw [ht] at hT
      simp only [findCsr_eq hT, Option.map_some, Option.bind_some, ite_eq_left_iff, reduceCtorEq, imp_false,
        Bool.not_eq_true, Bool.not_eq_false]
  | absolute =>
    have hT : csrTarget uri = (cutSlash (uri.drop 2)).map fun p => (strtok p.2).map (wholeUpTo p.1) := by
      unfold csrTarget
      simp only [hty]
      rw [if_neg (by simp)]
    cases hc : cutSlash (uri.drop 2) with
    | none =>
      rw [hc] at hT
      simp [findCsrRtnodeByUri, hT]
    | some p =>
      obtain ⟨spid, rest⟩ := p
      rw [hc] at hT
      simp only [Option.bind_some, head?_tokens]
      cases ht : strtok rest with
      | none =>
        rw [findCsr_null (by simp [hT, ht])]
        simp [eq_comm]
      | some t =>
        have hw : csrTarget uri = some (some (wholeUpTo spid t)) := by simp [hT, ht]
        simp only [findCsr_eq hw, Option.map_some, Option.bind_some]
        unfold SameRoute
        rw [← find?_or_eq_iff]
        by_cases hcmp : comparable (wholeUpTo spid t) csrs = true
        · simp only [hcmp, if_true, Option.some.injEq, true_and]
        · simp [hcmp]

/-- A remoteCSE registered as `/remote`. -/
def remoteCsr : RTNode :=
  { id := 1, ty := .csr, rn := "remote".toList, uri := "TinyIoT/remote".toList, obj := [(.csi, .str "/remote".toList)] }

/-- An absolute address of the remoteCSE is not routed to it, and one that ends after the service provider
makes the search dereference NULL. -/
theorem absolute_not_routed :
    ¬ RoutedByName [remoteCsr] none "//other.example.com/remote/cnt".toList ∧
      findCsrRtnodeByUri [remoteCsr] none (some "//other.example.com".toList) = none := by
  refine ⟨fun h => ?_, rfl⟩
  have h' : some none = some (some remoteCsr) := h
  cases h'

end TinyIoT
