/-
The target of a request (`get_rtnode`): what is cut off an address of each form before it is looked up,
and the fan-out part found behind the address of a group. The fan-out part is searched in the text of the
request as it came, and only where this text is longer than the uri of the group, so the three forms of
one address agree except at short addresses and at addresses that begin with `fopt`.
-/
import TinyIoT.Addressing.Remote
import TinyIoT.Server.Boot

namespace TinyIoT

/-- `CSE_BASE_SP_ID`. -/
def cseBaseSpId : CStr := "tinyiot.example.com".toList

/-- The CSEs requests are forwarded to, and what forwarding to one of them returns. -/
structure Peers where
  csrs : List RTNode
  registrar : Option RTNode
  forward : RTNode → Int

/-- What `get_rtnode` returns and leaves in the request. -/
structure Located where
  server : Server
  node : Ptr
  isFopt : Bool := false
  fopt : Option CStr := none
  isForwarding : Bool := false
  error : Option (Int × String) := none

/-! ## Fan-out part -/

/-- The text from the first occurrence of `/fopt` on (`strstr`). -/
def foptStart (target : CStr) : Option CStr :=
  if (cutAt "/fopt".toList target).2 then some (target.drop (cutAt "/fopt".toList target).1.length) else none

/-- `isFopt` and `fopt` after the look at a text. -/
def foptPart (target : CStr) : Bool × Option CStr :=
  match foptStart target with
  | none => (false, none)
  | some start =>
    if start.length = 5 then (true, none)
    else if start[5]? = some '/' then (true, some (start.drop 5))
    else (false, none)

/-- The look is taken where the text is longer than the uri of the group. -/
def groupFopt (uri target : CStr) : Bool × Option CStr :=
  if uri.length < target.length then foptPart target else (false, none)

/-! ## The three forms -/

/-- `handle_error` of an address that names nothing. -/
def invalidUri (s : Server) : Located :=
  { server := s, node := .null, error := some (Rsc.badRequest.code, "Invalid uri") }

/-- `find_rtnode`, for the target of a request. -/
def locate (now : CStr) (s : Server) (addr : CStr) : Located :=
  { server := (s.findRtnode now addr).1, node := (s.findRtnode now addr).2 }

/-- A request for another CSE, with the error where none is found. -/
def forwardRequest (peers : Peers) (s : Server) (uri : CStr) (missing : Int × String) : Option Located :=
  (findCsrRtnodeByUri peers.csrs peers.registrar (some uri)).map fun found => match found with
    | none => { server := s, node := .null, isForwarding := true, error := some missing }
    | some csr =>
      { server := s, node := .null, isForwarding := true,
        error := if 4000 ≤ peers.forward csr then some (peers.forward csr, "Forwarding Failed") else none }

/-- `parse_spr_uri`. -/
def parseSprUri (now : CStr) (peers : Peers) (s : Server) (uri : CStr) : Option Located :=
  if isSpRelativeLocal uri then
    let len := if cseBaseName.isPrefixOf (uri.drop 1) then cseBaseName.length else cseBaseRi.length
    if uri.drop 1 = cseBaseRi ∨ uri.drop 1 = cseBaseName then some (invalidUri s)
    else if (uri.drop (len + 2)).length = 0 then some (invalidUri s)
    else some (locate now s (uri.drop (len + 2)))
  else forwardRequest peers s uri (Rsc.notFound.code, "Resource Not Found")

/-- `parse_abs_uri`. -/
def parseAbsUri (now : CStr) (peers : Peers) (s : Server) (uri : CStr) : Option Located :=
  if isSPIDLocal uri then
    if uri.drop 2 = cseBaseSpId then some (invalidUri s)
    else if (uri.drop (cseBaseSpId.length + 2)).length = 0 then some (invalidUri s)
    else parseSprUri now peers s (uri.drop (cseBaseSpId.length + 2))
  else forwardRequest peers s uri (Rsc.badRequest.code, "Remote CSE not found")

/-- The fan-out part of a request for a group. -/
def Located.withFopt (r : Located) (target : CStr) : Located :=
  match r.node.deref r.server with
  | none => r
  | some n =>
    if n.ty = .grp then { r with isFopt := (groupFopt n.uri target).1, fopt := (groupFopt n.uri target).2 } else r

/-- `get_rtnode`: no result where NULL is dereferenced on the way. -/
def getRtnode (now : CStr) (peers : Peers) (s : Server) : Option CStr → Option Located
  | none => some (invalidUri s)
  | some target =>
    let found := match addressingType target with
      | .cseRelative => some (locate now s target)
      | .spRelative => parseSprUri now peers s target
      | .absolute => parseAbsUri now peers s target
      | .protocolBinding => some { server := s, node := .null }
    found.map fun r => r.withFopt target

/-! ## One address in three forms -/

/-- The address relative to the service provider. -/
def spRelativeForm (addr : CStr) : CStr := '/' :: cseBaseRi ++ '/' :: addr

def absoluteForm (addr : CStr) : CStr := ['/', '/'] ++ cseBaseSpId ++ spRelativeForm addr

/-- Two requests have the same target: the same node with the same fan-out flag and suffix, or none. -/
def Located.SameTarget (r r' : Located) : Prop := r.node = r'.node ∧ r.isFopt = r'.isFopt ∧ r.fopt = r'.fopt

/-- The three forms of an address have the same target. -/
def FormsAlike (now : CStr) (peers : Peers) (s : Server) (addr : CStr) : Prop :=
  ∃ r r₁ r₂, getRtnode now peers s (some addr) = some r ∧ getRtnode now peers s (some (spRelativeForm addr)) = some r₁ ∧
    getRtnode now peers s (some (absoluteForm addr)) = some r₂ ∧ r.SameTarget r₁ ∧ r.SameTarget r₂

/-- The look at a text of the address of a group finds the same in all its forms. -/
def FoptAlike (uri addr : CStr) : Prop :=
  (absoluteForm addr).length ≤ uri.length ∨
    if "fopt".toList.isPrefixOf addr then
      (foptPart ('/' :: addr)).1 = false ∧ ((foptPart addr).1 = true → addr.length ≤ uri.length)
    else (foptPart addr).1 = true → uri.length < addr.length

theorem length_absoluteForm (addr : CStr) : (absoluteForm addr).length = addr.length + 30 := by
  have h₁ : cseBaseSpId.length = 19 := rfl
  have h₂ : cseBaseRi.length = 7 := rfl
  simp only [absoluteForm, spRelativeForm, List.length_append, List.length_cons, List.length_nil, h₁, h₂]
  omega

theorem length_spRelativeForm (addr : CStr) : (spRelativeForm addr).length = addr.length + 9 := by
  have h : cseBaseRi.length = 7 := rfl
  simp only [spRelativeForm, List.length_append, List.length_cons, h]
  omega

/-! ## The look at a text -/

theorem foptStart_cons (c : Char) (s : CStr) :
    foptStart (c :: s) = if "/fopt".toList.isPrefixOf (c :: s) then some (c :: s) else foptStart s := by
  unfold foptStart
  rw [cutAt]
  split
  · rfl
  · rfl

/-- What the look finds behind the letters of a CSE-ID and of a service provider, none of which is a slash before `f`. -/
theorem foptStart_append {l s : CStr} (h : l.all (fun c => c != '/') = true) : foptStart (l ++ s) = foptStart s := by
  induction l with
  | nil => rfl
  | cons c l ih =>
    rw [List.all_cons, Bool.and_eq_true_iff] at h
    obtain ⟨hc, hl⟩ := h
    rw [List.cons_append, foptStart_cons, if_neg, ih hl]
    intro hp
    have : ('/' == c) = true := by
      have hp : ("/fopt".toList).isPrefixOf (c :: (l ++ s)) = true := hp
      exact (Bool.and_eq_true_iff.mp hp).1
    exact bne_iff_ne.mp hc (beq_iff_eq.mp this).symm

theorem foptStart_spRelativeForm (addr : CStr) : foptStart (spRelativeForm addr) = foptStart ('/' :: addr) := by
  have h : foptStart (spRelativeForm addr) = foptStart (cseBaseRi ++ '/' :: addr) := by
    rw [spRelativeForm, List.cons_append, foptStart_cons, if_neg]
    exact Bool.false_ne_true
  rw [h]
  exact foptStart_append rfl

theorem foptStart_absoluteForm (addr : CStr) : foptStart (absoluteForm addr) = foptStart ('/' :: addr) := by
  have h : foptStart (absoluteForm addr) = foptStart (cseBaseSpId ++ spRelativeForm addr) := by
    show foptStart ('/' :: '/' :: (cseBaseSpId ++ spRelativeForm addr)) = _
    rw [foptStart_cons, if_neg, foptStart_cons, if_neg]
    · exact Bool.false_ne_true
    · exact Bool.false_ne_true
  rw [h, foptStart_append rfl]
  exact foptStart_spRelativeForm addr

theorem foptPart_congr {t t' : CStr} (h : foptStart t = foptStart t') : foptPart t = foptPart t' := by
  unfold foptPart
  rw [h]

/-- Behind a slash an address that does not begin with `fopt` has the fan-out part it has. -/
theorem foptStart_slash {addr : CStr} : foptStart ('/' :: addr) =
    if "fopt".toList.isPrefixOf addr then some ('/' :: addr) else foptStart addr := by
  rw [foptStart_cons]
  rfl

theorem foptPart_none {t : CStr} (h : (foptPart t).1 = false) : foptPart t = (false, none) := by
  unfold foptPart at h ⊢
  split
  · rfl
  · rename_i start hs
    simp only [hs] at h
    split
    · rename_i hl
      rw [if_pos hl] at h
      cases h
    · rename_i hl
      rw [if_neg hl] at h
      split
      · rename_i hc
        rw [if_pos hc] at h
        cases h
      · rfl

theorem foptStart_length {t start : CStr} (h : foptStart t = some start) : start.length ≤ t.length := by
  unfold foptStart at h
  split at h
  · cases h
    rw [List.length_drop]
    omega
  · cases h

/-- An address that begins with `fopt` has another fan-out part than it has behind a slash. -/
theorem foptPart_slash_ne {addr : CStr} (hf : "fopt".toList.isPrefixOf addr = true)
    (hp : (foptPart ('/' :: addr)).1 = true) : foptPart addr ≠ foptPart ('/' :: addr) := by
  obtain ⟨rest, rfl⟩ := List.isPrefixOf_iff_prefix.mp hf
  have hstart : foptStart ("fopt".toList ++ rest) = foptStart rest := foptStart_append rfl
  have hslash : foptStart ('/' :: ("fopt".toList ++ rest)) = some ('/' :: ("fopt".toList ++ rest)) := by
    rw [foptStart_slash, if_pos hf]
  intro he
  rw [← he] at hp
  unfold foptPart at hp he
  rw [hstart] at hp he
  rw [hslash] at he
  cases rest with
  | nil => cases hp
  | cons c rest =>
    -- the part behind the slash is the rest of the address, that of the address itself is shorter
    have hlen : ¬ ('/' :: ("fopt".toList ++ c :: rest)).length = 5 := by simp
    have hdrop : ('/' :: ("fopt".toList ++ c :: rest)).drop 5 = c :: rest := rfl
    cases hs : foptStart (c :: rest) with
    | none =>
      rw [hs] at hp
      cases hp
    | some start =>
      have hle := foptStart_length hs
      simp only [hs, hlen, if_false, hdrop] at he hp
      by_cases h5 : start.length = 5
      · simp only [h5, if_true] at he
        split at he <;> cases he
      · by_cases hc : start[5]? = some '/'
        · simp only [h5, hc, if_true, if_false] at he
          split at he
          · have hdl := congrArg List.length (Option.some.inj (congrArg Prod.snd he))
            simp only [List.length_drop, List.length_cons] at hdl hle
            omega
          · cases he
        · simp only [h5, hc, if_false] at hp
          cases hp

/-- The looks at the three texts find the same exactly where the condition on the address holds. -/
theorem foptAlike_iff {uri addr : CStr} :
    groupFopt uri addr = groupFopt uri (spRelativeForm addr) ∧ groupFopt uri addr = groupFopt uri (absoluteForm addr) ↔
      FoptAlike uri addr := by
  have h₁ : foptPart (spRelativeForm addr) = foptPart ('/' :: addr) := foptPart_congr (foptStart_spRelativeForm addr)
  have h₂ : foptPart (absoluteForm addr) = foptPart ('/' :: addr) := foptPart_congr (foptStart_absoluteForm addr)
  unfold FoptAlike groupFopt
  rw [length_spRelativeForm, length_absoluteForm, h₁, h₂]
  by_cases hlong : addr.length + 30 ≤ uri.length
  · simp only [hlong, true_or, iff_true]
    rw [if_neg (by omega), if_neg (by omega), if_neg (by omega)]
    exact ⟨rfl, rfl⟩
  · rw [if_pos (by omega : uri.length < addr.length + 30)]
    simp only [hlong, false_or]
    by_cases hf : "fopt".toList.isPrefixOf addr = true
    · rw [if_pos hf]
      cases hF : (foptPart ('/' :: addr)).1 with
      | true =>
        have hne := foptPart_slash_ne hf hF
        simp only [Bool.true_eq_false, false_and, iff_false]
        rintro ⟨-, h⟩
        split at h
        · exact hne h
        · rw [← h] at hF
          cases hF
      | false =>
        rw [foptPart_none hF]
        have hsp : (if uri.length < addr.length + 9 then (false, none) else (false, none) : Bool × Option CStr) =
            (false, none) := ite_self _
        rw [hsp]
        simp only [and_self, true_and]
        constructor
        · intro h hp
          by_contra hlt
          rw [if_pos (by omega)] at h
          rw [h] at hp
          cases hp
        · intro h
          split
          · rename_i hlt
            cases hp : (foptPart addr).1 with
            | true => exact absurd (h hp) (by omega)
            | false => exact foptPart_none hp
          · rfl
    · have hF : foptPart ('/' :: addr) = foptPart addr := foptPart_congr (by rw [foptStart_slash, if_neg hf])
      rw [if_neg hf, hF]
      constructor
      · rintro ⟨-, h⟩ hp
        by_contra hlt
        rw [if_neg hlt] at h
        rw [← h] at hp
        cases hp
      · intro h
        cases hp : (foptPart addr).1 with
        | true =>
          have hlt := h hp
          rw [if_pos hlt, if_pos (by omega)]
          exact ⟨rfl, rfl⟩
        | false =>
          rw [foptPart_none hp, ite_self, ite_self]
          exact ⟨rfl, rfl⟩

/-! ## The lookup behind each form -/

section Forms

variable {now : CStr} {peers : Peers} {s : Server} {addr : CStr}

theorem locate_deref : (locate now s addr).node.deref (locate now s addr).server = (s.findNode now addr).deref s := by
  unfold locate Server.findNode Server.findRtnode
  dsimp only
  cases hd : (s.resolve addr).deref s with
  | none => rfl
  | some n =>
    dsimp only
    split
    · rfl
    · rfl

theorem withFopt_null {r : Located} (h : r.node = .null) (target : CStr) : r.withFopt target = r := by
  unfold Located.withFopt
  rw [h]
  rfl

theorem getRtnode_cseRelative (h : addressingType addr = .cseRelative) :
    getRtnode now peers s (some addr) = some ((locate now s addr).withFopt addr) := by
  unfold getRtnode
  simp only [h]
  rfl

theorem parseSprUri_form : parseSprUri now peers s (spRelativeForm addr) =
    some (if addr = [] then invalidUri s else locate now s addr) := by
  have hne : ∀ l : CStr, l.length = 7 → cseBaseRi ++ '/' :: addr ≠ l := by
    rintro l hl rfl
    have h : cseBaseRi.length = 7 := rfl
    simp only [List.length_append, List.length_cons, h] at hl
    omega
  have hdrop : (spRelativeForm addr).drop 1 = cseBaseRi ++ '/' :: addr := rfl
  have hlocal : isSpRelativeLocal (spRelativeForm addr) = true := rfl
  have hname : cseBaseName.isPrefixOf (cseBaseRi ++ '/' :: addr) = false := rfl
  have haddr : (spRelativeForm addr).drop (cseBaseRi.length + 2) = addr := rfl
  unfold parseSprUri
  rw [if_pos hlocal, hdrop, hname]
  dsimp only
  rw [if_neg (not_or.mpr ⟨hne _ rfl, hne _ rfl⟩)]
  simp only [Bool.false_eq_true, if_false, haddr]
  cases addr with
  | nil => rfl
  | cons c l => simp

theorem parseAbsUri_form : parseAbsUri now peers s (absoluteForm addr) =
    some (if addr = [] then invalidUri s else locate now s addr) := by
  have hlocal : isSPIDLocal (absoluteForm addr) = true := rfl
  have hne : (absoluteForm addr).drop 2 ≠ cseBaseSpId := by
    intro h
    have hl := congrArg List.length h
    rw [List.length_drop, length_absoluteForm] at hl
    have h₁ : cseBaseSpId.length = 19 := rfl
    omega
  have hform : (absoluteForm addr).drop (cseBaseSpId.length + 2) = spRelativeForm addr := rfl
  unfold parseAbsUri
  rw [if_pos hlocal, if_neg hne, hform, if_neg, parseSprUri_form]
  rw [length_spRelativeForm]
  omega

theorem getRtnode_spRelative : getRtnode now peers s (some (spRelativeForm addr)) =
    some ((if addr = [] then invalidUri s else locate now s addr).withFopt (spRelativeForm addr)) := by
  have h : addressingType (spRelativeForm addr) = .spRelative := rfl
  unfold getRtnode
  simp only [h, parseSprUri_form, Option.map_some]

theorem getRtnode_absolute : getRtnode now peers s (some (absoluteForm addr)) =
    some ((if addr = [] then invalidUri s else locate now s addr).withFopt (absoluteForm addr)) := by
  have h : addressingType (absoluteForm addr) = .absolute := rfl
  unfold getRtnode
  simp only [h, parseAbsUri_form, Option.map_some]

theorem withFopt_locate (now : CStr) (s : Server) (addr target : CStr) :
    ((locate now s addr).withFopt target).node = s.findNode now addr ∧
    (((locate now s addr).withFopt target).isFopt, ((locate now s addr).withFopt target).fopt) =
      ((s.findNode now addr).deref s).elim (false, none) fun g =>
        if g.ty = .grp then groupFopt g.uri target else (false, none) := by
  unfold Located.withFopt
  rw [locate_deref]
  cases (s.findNode now addr).deref s with
  | none => exact ⟨rfl, rfl⟩
  | some g =>
    dsimp only [Option.elim_some]
    split
    · exact ⟨rfl, rfl⟩
    · exact ⟨rfl, rfl⟩

theorem sameTarget_locate {t t' : CStr} :
    ((locate now s addr).withFopt t).SameTarget ((locate now s addr).withFopt t') ↔
      ∀ g, (s.findNode now addr).deref s = some g → g.ty = .grp → groupFopt g.uri t = groupFopt g.uri t' := by
  obtain ⟨h₁, h₂⟩ := withFopt_locate now s addr t
  obtain ⟨h₁', h₂'⟩ := withFopt_locate now s addr t'
  unfold Located.SameTarget
  rw [h₁, h₁', ← Prod.mk.injEq, h₂, h₂']
  cases (s.findNode now addr).deref s with
  | none => simp
  | some g =>
    by_cases hg : g.ty = .grp
    · simp [hg]
    · simp [hg]

theorem formsAlike_iff (h : addressingType addr = .cseRelative) : FormsAlike now peers s addr ↔
    ((locate now s addr).withFopt addr).SameTarget
        ((if addr = [] then invalidUri s else locate now s addr).withFopt (spRelativeForm addr)) ∧
      ((locate now s addr).withFopt addr).SameTarget
        ((if addr = [] then invalidUri s else locate now s addr).withFopt (absoluteForm addr)) := by
  unfold FormsAlike
  rw [getRtnode_cseRelative h, getRtnode_spRelative, getRtnode_absolute]
  constructor
  · rintro ⟨_, _, _, ⟨⟩, ⟨⟩, ⟨⟩, h₁, h₂⟩
    exact ⟨h₁, h₂⟩
  · rintro ⟨h₁, h₂⟩
    exact ⟨_, _, _, rfl, rfl, rfl, h₁, h₂⟩

/-- The three forms of an address relative to the CSE have the same target exactly where it is not empty
or names nothing, and the fan-out part of a group it names is found in all three texts or in none. -/
theorem formsAlike_iff_foptAlike (h : addressingType addr = .cseRelative) : FormsAlike now peers s addr ↔
    (addr = [] → s.findNode now [] = .null) ∧
      ∀ g, (s.findNode now addr).deref s = some g → g.ty = .grp → FoptAlike g.uri addr := by
  rw [formsAlike_iff h]
  by_cases ha : addr = []
  · subst ha
    simp only [if_true, forall_const]
    rw [withFopt_null (r := invalidUri s) rfl, withFopt_null (r := invalidUri s) rfl, and_self]
    obtain ⟨hn, hf⟩ := withFopt_locate now s [] []
    constructor
    · rintro ⟨hnode, -⟩
      have hnull : s.findNode now [] = .null := hn.symm.trans hnode
      refine ⟨hnull, fun g hg => ?_⟩
      rw [hnull] at hg
      cases hg
    · rintro ⟨hnull, -⟩
      rw [hnull] at hf
      refine ⟨hn.trans hnull, ?_⟩
      obtain ⟨h₁, h₂⟩ := Prod.mk.injEq .. ▸ hf
      exact ⟨h₁, h₂⟩
  · simp only [ha, if_false, false_imp_iff, true_and]
    rw [sameTarget_locate, sameTarget_locate]
    constructor
    · rintro ⟨h₁, h₂⟩ g hg hty
      exact foptAlike_iff.mp ⟨h₁ g hg hty, h₂ g hg hty⟩
    · intro hall
      exact ⟨fun g hg hty => (foptAlike_iff.mpr (hall g hg hty)).1, fun g hg hty => (foptAlike_iff.mpr (hall g hg hty)).2⟩

end Forms

/-- A group below the CSEBase. -/
def groupOfBase : Option Server := do
  let s ← boot firstDay
  let cb ← s.node? 0
  let grp ← createRtnode 2 [(.rn, .str "g".toList), (.ri, .str "9-1".toList), (.pi, .str cseBaseRi)] .grp
  return s.addChildResourceTree cb grp

/-- No other CSE is registered. -/
def noPeers : Peers := ⟨[], none, fun _ => 0⟩

theorem formsAlike_group : ∃ s, groupOfBase = some s ∧ FormsAlike firstDay.now noPeers s "TinyIoT/g/fopt/la".toList := by
  have hrun : groupOfBase.any (fun s => ((s.findNode firstDay.now "TinyIoT/g/fopt/la".toList).deref s).any fun g =>
      decide (g.uri.length < 17)) = true := by decide +kernel
  obtain ⟨s, hs, h⟩ := (Option.any_eq_true _ _).mp hrun
  obtain ⟨g, hg, h⟩ := (Option.any_eq_true _ _).mp h
  refine ⟨s, hs, (formsAlike_iff_foptAlike rfl).mpr ⟨fun h => (by cases h), fun g' hg' _ => .inr ?_⟩⟩
  cases hg.symm.trans hg'
  rw [if_neg (by decide)]
  exact fun _ => by simpa using h

/-- The short address of the group fans out relative to the service provider and not relative to the CSE. -/
theorem forms_differ_short_address : ∃ s, groupOfBase = some s ∧ addressingType "-/g/fopt".toList = .cseRelative ∧
    ¬ FormsAlike firstDay.now noPeers s "-/g/fopt".toList := by
  have hrun : groupOfBase.any (fun s => (getRtnode firstDay.now noPeers s (some "-/g/fopt".toList)).all (fun r => !r.isFopt) &&
      (getRtnode firstDay.now noPeers s (some (spRelativeForm "-/g/fopt".toList))).all fun r => r.isFopt) = true := by
    decide +kernel
  obtain ⟨s, hs, h⟩ := (Option.any_eq_true _ _).mp hrun
  rw [Bool.and_eq_true] at h
  refine ⟨s, hs, by decide, ?_⟩
  rintro ⟨r, r₁, -, hr, hr₁, -, ⟨-, hf, -⟩, -⟩
  rw [hr, hr₁] at h
  simp [hf] at h

end TinyIoT
