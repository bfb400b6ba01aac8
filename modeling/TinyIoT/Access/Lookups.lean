/-
The access checks with the lookups they make. `find_rtnode` removes an expired resource, so every entry of an
`acpi` and every group an `acor` names may change the tree under the check that goes on. Where no address that is
looked up names an expired resource, the checks decide as the functions of `Policy` say and leave the CSE alone.
-/
import TinyIoT.Access.Policy
import TinyIoT.Server.Resolve

namespace TinyIoT

/-! ## What a check looks up -/

/-- An entry of `acor` is looked up as a group when it is no pattern and not the originator itself. -/
def asksGroup (origin entry : CStr) : Bool := !entry.contains '*' && decide (entry ≠ origin)

/-- The groups the rules of a policy are asked for. -/
def groupRefs (origin : CStr) (acp : Obj) (k : Attr) : List CStr :=
  (rules acp k).flatMap fun acr =>
    ((originators acr).filterMap fun j => j.valuestring.map localOrigin).filter (asksGroup origin)

namespace Server

variable {s : Server} {now : CStr}

/-- The addresses that decide what `get_acop` gives for a node. -/
def acopRefs (now : CStr) (s : Server) (origin : CStr) (n : RTNode) : List CStr :=
  if n.ty = .acp then groupRefs origin n.obj .pvs
  else (n.obj.arr .acpi).filterMap Json.valuestring ++
    (s.policyNodes now (n.obj.arr .acpi)).flatMap fun acp => groupRefs origin acp.obj .pv

/-- The addresses the governing policy of a resource brings in. -/
def governingRefs (now : CStr) (s : Server) (origin : CStr) (q : Ptr) : List CStr :=
  match governing (s.ancestry q) with
  | .acpi m => s.acopRefs now origin m
  | _ => []

/-- The addresses that decide about a resource. -/
def decisionRefs (now : CStr) (s : Server) (origin : CStr) (q : Ptr) (n : RTNode) : List CStr :=
  if n.ty = .acp then groupRefs origin n.obj .pvs else s.governingRefs now origin q

/-- None of the addresses that decide about a resource names an expired one. -/
def looksSettled (now : CStr) (s : Server) (origin : CStr) (q : Ptr) : Bool :=
  (q.deref s).all fun n => (s.decisionRefs now origin q n).all fun addr => decide (s.Settled now addr)

theorem settled_of_looksSettled {origin : CStr} {q : Ptr} {n : RTNode} (h : s.looksSettled now origin q = true)
    (hn : q.deref s = some n) : ∀ addr ∈ s.decisionRefs now origin q n, s.Settled now addr := by
  unfold looksSettled at h
  rw [hn, Option.all_some, List.all_eq_true] at h
  exact fun addr haddr => of_decide_eq_true (h addr haddr)

/-- An absolute address names no node. -/
theorem resolve_absolute (s : Server) (rest : CStr) : s.resolve ('/' :: '/' :: rest) = .null := by
  have hbase : ¬ ('/' :: '/' :: rest = cseBaseName ∨ '/' :: '/' :: rest = ['-']) := by
    rintro (h | h)
    · exact absurd (congrArg List.head? h) (by simp only [List.head?_cons]; decide)
    · exact absurd (congrArg List.head? h) (by simp)
  have hstr : ¬ isStructured ('/' :: '/' :: rest) = true := by
    unfold isStructured
    rw [show (cseBaseName ++ ['/']).isPrefixOf ('/' :: '/' :: rest) = false from rfl]
    simp
  unfold resolve
  rw [if_neg hbase, if_neg hstr, if_pos List.mem_cons_self]
  simp [findRtnodeByHybrid, cutSlash]

/-- An originator in absolute form is not looked up successfully: it stays as it is. -/
theorem normalizedOriginator_eq (s : Server) (fr : CStr) : s.normalizedOriginator now fr = fr := by
  unfold normalizedOriginator
  split
  · rename_i h
    unfold isSPIDLocal at h
    split at h
    · simp [findNode, findRtnode, resolve_absolute, Ptr.deref]
    · cases h
  · rfl

/-- A node that was there still is. -/
def keeps (s s' : Server) (n : RTNode) : Bool := (s.node? n.id).isNone || (s'.node? n.id).isSome

end Server

/-! ## The checks, lookup by lookup -/

/-- A step of an access check: what it decides, and the CSE its lookups leave; `none` reads freed memory, a missing
attribute or a place outside a text. -/
abbrev Looking := StateT Server Option

namespace Looking

/-- `find_rtnode` in a check that goes on reading the nodes `held`: they must not be what the lookup removes. -/
def find (now : CStr) (held : List RTNode) (addr : CStr) : Looking (Option RTNode) := fun s =>
  let (s', p) := s.findRtnode now addr
  if held.all (s.keeps s') then some (p.deref s', s') else none

/-- The originator is a member of a group node. -/
def hasMember (origin : CStr) (grp : RTNode) : Bool :=
  decide (grp.ty = .grp) && match grp.obj.get .mid with
    | some (.arr mid) => mid.any (Json.isStr origin)
    | _ => false

/-- `acor_matches_group_member`. -/
def acorMatchesGroupMember (now : CStr) (held : List RTNode) (acor origin : CStr) : Looking Bool :=
  (find now held acor).bind fun grp => pure (grp.any (hasMember origin))

/-- The two comparisons of an entry with an asterisk. The second is made when the first succeeds and starts as far
before the end of the originator as what follows the asterisk is long. -/
def wildcardMatches (origin acor : CStr) : Option Bool :=
  let pre := acor.takeWhile (· ≠ '*')
  let suf := (acor.dropWhile (· ≠ '*')).tail
  if pre.isPrefixOf origin then
    if origin.length < suf.length then none else some (suf.isSuffixOf origin)
  else some false

/-- An entry of `acor` stands for the originator. -/
def acorMatches (now : CStr) (held : List RTNode) (origin acor : CStr) : Looking Bool :=
  let acor := localOrigin acor
  if '*' ∈ acor then StateT.lift (wildcardMatches origin acor)
  else if acor = origin then pure true
  else (acorMatchesGroupMember now held acor origin).bind fun b => pure (b || acor = "all".toList)

/-- The first entry that stands for the originator ends the loop. -/
def anyString (p : CStr → Looking Bool) : List Json → Looking Bool
  | [] => pure false
  | j :: l => (StateT.lift j.valuestring).bind fun x => (p x).bind fun b => if b then pure true else anyString p l

/-- One rule of `get_acop_origin`: what it adds. -/
def ruleAcop (now : CStr) (held : List RTNode) (ip : Option CStr) (origin : CStr) (acr : Json) : Looking Acop :=
  (anyString (acorMatches now held origin) (originators acr)).bind fun b =>
    if b then
      (StateT.lift (checkAcco (acr.member .acco) ip)).bind fun c =>
        if c then (StateT.lift (acr.member .acop)).bind fun acop => pure (BitVec.ofInt 32 acop.valueint) else pure 0
    else pure 0

/-- `get_acop_origin`, with `self` for its flag. -/
def getAcopOrigin (now : CStr) (held : List RTNode) (ip : Option CStr) (origin : CStr) (acp : RTNode) (self : Bool) :
    Looking Acop :=
  if origin = adminAeId then pure .all
  else (rules acp.obj (if self then .pvs else .pv)).foldlM
    (fun acop acr => (ruleAcop now (acp :: held) ip origin acr).bind fun a => pure (acop ||| a)) 0

/-- One entry of an `acpi` or `macp`: what has been granted so far, and whether a policy was found. -/
def policyStep (now : CStr) (held : List RTNode) (ip : Option CStr) (origin : CStr) (acc : Acop × Bool) (entry : Json) :
    Looking (Acop × Bool) :=
  match entry.valuestring with
  | none => pure acc
  | some addr => (find now held addr).bind fun acp => match acp with
    | none => pure acc
    | some acp =>
      if acp.ty = .acp then
        (getAcopOrigin now held ip origin acp false).bind fun acop => pure (acc.1 ||| acop, true)
      else pure acc

/-- `get_acop_from_acpi_list`, for a list of the node `n`. -/
def getAcopFromAcpiList (now : CStr) (ip : Option CStr) (origin : CStr) (n : RTNode) (l : Json) : Looking Acop :=
  match l with
  | .arr l => (l.foldlM (policyStep now [n] ip origin) (0, false)).bind fun acc => pure acc.1
  | _ => pure 0

/-- `get_acop`. -/
def getAcop (now : CStr) (ip : Option CStr) (origin : CStr) (n : RTNode) : Looking Acop :=
  if origin = adminAeId then pure .all
  else if n.ty = .acp then getAcopOrigin now [] ip origin n true
  else match n.obj.get .acpi with
    | none => pure .fallback
    | some acpi => (acpi.items.foldlM (policyStep now [n] ip origin) (0, false)).bind fun acc =>
        pure (if acc.2 then acc.1 else .fallback)

/-- The last part of `check_privilege`: the governing policy decides. -/
def policyAllows (now : CStr) (req : Req) (origin : CStr) (wanted : Acop) (p : Ptr) (n : RTNode) : Looking Bool :=
  StateT.get.bind fun s => match governing (s.ancestry p) with
    | .acpi m => (getAcop now req.ip origin m).bind fun acop => pure (acop.covers wanted)
    | .owner ae => pure (ae.ri = some origin)
    | .creator => pure (n.obj.str .cr = some origin)

/-- `check_privilege`: whether it lets the request through. The originator is looked up in absolute form only, which
names no node. -/
def checkPrivilege (now : CStr) (req : Req) (p : Ptr) (acop : Acop) : Looking Bool :=
  StateT.get.bind fun s => match p.deref s with
    | none => pure false
    | some n =>
      if req.fr = adminAeId then pure true
      else if req.fr = [] ∨ req.fr = ['C'] then pure (req.op = .create && req.ty = ResourceType.ae.code)
      else
        let origin := s.normalizedOriginator now req.fr
        if n.ty = .acp then
          (getAcopOrigin now [] req.ip origin n true).bind fun g => pure (g.covers (Server.wantedAcop req acop))
        else (StateT.lift (Server.shortcut req origin acop n)).bind fun b =>
          if b then pure true else policyAllows now req origin (Server.wantedAcop req acop) p n

end Looking

/-! ## What a check leaves of the CSE -/

namespace Looking

variable {α β : Type} {now : CStr} {ip : Option CStr} {origin : CStr} {held : List RTNode}

/-- A check only looks resources up. -/
def OnlyLooks (now : CStr) (m : Looking α) : Prop := ∀ s a s', m s = some (a, s') → s.LooksUp now s'

theorem OnlyLooks.pure (a : α) : OnlyLooks now (Pure.pure a : Looking α) := by
  rintro s _ _ ⟨⟩
  exact .refl

theorem OnlyLooks.lift (a : Option α) : OnlyLooks now (StateT.lift a : Looking α) := by
  intro s _ _ h
  obtain ⟨_, -, h⟩ := Option.bind_eq_some_iff.mp h
  cases h
  exact .refl

theorem OnlyLooks.bind {m : Looking α} {f : α → Looking β} (hm : OnlyLooks now m) (hf : ∀ a, OnlyLooks now (f a)) :
    OnlyLooks now (m.bind f) := by
  intro s b s' h
  obtain ⟨⟨a, s₁⟩, h₁, h⟩ := Option.bind_eq_some_iff.mp h
  exact (hm s a s₁ h₁).trans (hf a s₁ b s' h)

theorem OnlyLooks.ite {c : Prop} [Decidable c] {m m' : Looking α} (hm : OnlyLooks now m) (hm' : OnlyLooks now m') :
    OnlyLooks now (if c then m else m') := by
  split
  · exact hm
  · exact hm'

theorem OnlyLooks.foldlM {f : β → α → Looking β} (hf : ∀ b a, OnlyLooks now (f b a)) (l : List α) (b : β) :
    OnlyLooks now (l.foldlM f b) := by
  induction l generalizing b with
  | nil => exact .pure b
  | cons a l ih =>
    rw [List.foldlM_cons]
    exact .bind (hf b a) ih

theorem onlyLooks_find (addr : CStr) : OnlyLooks now (find now held addr) := by
  intro s a s' h
  unfold find at h
  obtain ⟨-, h⟩ := Option.ite_none_right_eq_some.mp h
  cases h
  exact .find addr

theorem onlyLooks_acorMatches (acor : CStr) : OnlyLooks now (acorMatches now held origin acor) :=
  .ite (.lift _) (.ite (.pure _) (.bind (.bind (onlyLooks_find _) fun _ => .pure _) fun _ => .pure _))

theorem onlyLooks_anyString {p : CStr → Looking Bool} (hp : ∀ x, OnlyLooks now (p x)) (l : List Json) :
    OnlyLooks now (anyString p l) := by
  induction l with
  | nil => exact .pure _
  | cons j l ih => exact .bind (.lift _) fun x => .bind (hp x) fun _ => .ite (.pure _) ih

theorem onlyLooks_getAcopOrigin (acp : RTNode) (self : Bool) :
    OnlyLooks now (getAcopOrigin now held ip origin acp self) :=
  .ite (.pure _) (.foldlM (fun _ acr => .bind (.bind (onlyLooks_anyString (fun _ => onlyLooks_acorMatches _) (originators acr))
    fun _ => .ite (.bind (.lift _) fun _ => .ite (.bind (.lift _) fun _ => .pure _) (.pure _)) (.pure _)) fun _ => .pure _) _ _)

theorem onlyLooks_policyStep (acc : Acop × Bool) (entry : Json) : OnlyLooks now (policyStep now held ip origin acc entry) := by
  unfold policyStep
  split
  · exact .pure _
  · refine .bind (onlyLooks_find _) fun acp => ?_
    split
    · exact .pure _
    · exact .ite (.bind (onlyLooks_getAcopOrigin _ _) fun _ => .pure _) (.pure _)

theorem onlyLooks_getAcopFromAcpiList (n : RTNode) (l : Json) : OnlyLooks now (getAcopFromAcpiList now ip origin n l) := by
  unfold getAcopFromAcpiList
  split
  · exact .bind (.foldlM onlyLooks_policyStep _ _) fun _ => .pure _
  · exact .pure _

theorem onlyLooks_getAcop (n : RTNode) : OnlyLooks now (getAcop now ip origin n) := by
  unfold getAcop
  refine .ite (.pure _) (.ite (onlyLooks_getAcopOrigin _ _) ?_)
  split
  · exact .pure _
  · exact .bind (.foldlM onlyLooks_policyStep _ _) fun _ => .pure _

/-- `check_privilege` removes expired resources at most. -/
theorem onlyLooks_checkPrivilege (req : Req) (p : Ptr) (acop : Acop) : OnlyLooks now (checkPrivilege now req p acop) := by
  have hget : OnlyLooks now (StateT.get : Looking Server) := by
    rintro s _ _ ⟨⟩
    exact .refl
  refine .bind hget fun s => ?_
  split
  · exact .pure _
  · refine .ite (.pure _) (.ite (.pure _) ?_)
    dsimp only
    refine .ite (.bind (onlyLooks_getAcopOrigin _ _) fun _ => .pure _) (.bind (.lift _) fun _ => .ite (.pure _) ?_)
    refine .bind hget fun s => ?_
    split
    · exact .bind (onlyLooks_getAcop _) fun _ => .pure _
    · exact .pure _
    · exact .pure _

end Looking

/-- What `check_privilege` answers. -/
def Server.privileged (now : CStr) (s : Server) (req : Req) (p : Ptr) (acop : Acop) : Option Bool :=
  (Looking.checkPrivilege now req p acop s).map Prod.fst

/-! ## Checks that find nothing expired -/

namespace Looking

variable {ok : Prop} {s : Server} {now : CStr} {ip : Option CStr} {origin : CStr} {held : List RTNode}

/-- A check leaves the CSE alone and decides `r`; it may only fail where `ok` does not hold. -/
def Still {α : Type} (ok : Prop) (m : Looking α) (r : Option α) (s : Server) : Prop :=
  m s = r.map (·, s) ∨ (¬ ok ∧ m s = none)

theorem still_pure {α : Type} (a : α) : Still ok (pure a) (some a) s := .inl rfl

theorem still_lift {α : Type} (r : Option α) : Still ok (StateT.lift r) r s := by
  refine .inl ?_
  cases r <;> rfl

theorem still_bind {α β : Type} {m : Looking α} {f : α → Looking β} {r : Option α} {g : α → Option β}
    (hm : Still ok m r s) (hf : ∀ a, r = some a → Still ok (f a) (g a) s) : Still ok (m.bind f) (r.bind g) s := by
  rcases hm with h | ⟨hok, h⟩
  · cases r with
    | none =>
      refine .inl ?_
      unfold StateT.bind
      rw [h]
      rfl
    | some a =>
      have hbind : m.bind f s = f a s := by
        unfold StateT.bind
        rw [h]
        rfl
      unfold Still
      rw [hbind]
      exact hf a rfl
  · refine .inr ⟨hok, ?_⟩
    unfold StateT.bind
    rw [h]
    rfl

theorem still_get {α : Type} {f : Server → Looking α} {r : Option α} (h : Still ok (f s) r s) :
    Still ok (StateT.get.bind f) r s := h

/-- What a check that leaves the CSE alone answers. -/
theorem Still.fst {α : Type} {m : Looking α} {r : Option α} {a : α} (h : Still ok m r s)
    (ha : (m s).map Prod.fst = some a) : r = some a := by
  rcases h with h | ⟨-, h⟩
  · rw [h, Option.map_map] at ha
    simpa using ha
  · rw [h] at ha
    cases ha

theorem Still.eq {α : Type} {m : Looking α} {r : Option α} (h : Still ok m r s) (hok : ok) : m s = r.map (·, s) :=
  h.resolve_right fun hno => hno.1 hok

theorem keeps_self (s : Server) (n : RTNode) : s.keeps s n = true := by
  unfold Server.keeps
  cases s.node? n.id <;> rfl

/-- A lookup that meets nothing expired. -/
theorem still_find {addr : CStr} (h : s.Settled now addr) : Still ok (find now held addr)
    (some ((s.findNode now addr).deref s)) s := by
  have hstate : (s.findRtnode now addr).1 = s := by
    rcases Server.findRtnode_settled h with h | ⟨n, -, h⟩ <;> rw [h]
  refine .inl ?_
  unfold find Server.findNode
  rw [show s.findRtnode now addr = (s, (s.findRtnode now addr).2) from Prod.ext hstate rfl]
  dsimp only
  rw [if_pos (List.all_eq_true.mpr fun n _ => keeps_self s n)]
  rfl

theorem hasMember_eq (s : Server) (now acor origin : CStr) :
    ((s.findNode now acor).deref s).any (hasMember origin) = s.acorMatchesGroupMember now acor origin := by
  unfold Server.acorMatchesGroupMember
  cases (s.findNode now acor).deref s with
  | none => rfl
  | some grp =>
    rw [Option.any_some]
    unfold hasMember
    dsimp only
    by_cases hty : grp.ty = .grp
    · rw [if_neg (not_not.mpr hty), decide_eq_true hty]
      exact Bool.true_and _
    · rw [decide_eq_false hty, Bool.false_and, if_pos hty]

end Looking

/-- What is fixed of an entry with an asterisk does not overlap in the originator: where the first part is how the
originator begins, the second is no longer than it, and the two have room in it if both fit. -/
def patternFits (origin acor : CStr) : Bool :=
  let entry := localOrigin acor
  let pre := entry.takeWhile (· ≠ '*')
  let suf := (entry.dropWhile (· ≠ '*')).tail
  !entry.contains '*' || !pre.isPrefixOf origin || decide (pre.length + suf.length ≤ origin.length) ||
    (decide (suf.length ≤ origin.length) && !suf.isSuffixOf origin)

/-- The patterns of a rule fit. -/
def Fitting (origin : CStr) (acr : Json) : Prop := ∀ acor, .str acor ∈ originators acr → patternFits origin acor = true

namespace Looking

variable {ok : Prop} {s : Server} {now : CStr} {ip : Option CStr} {origin : CStr} {held : List RTNode}

theorem still_acorMatches {acor : CStr} (hfits : ok → patternFits origin acor = true)
    (h : asksGroup origin (localOrigin acor) = true → s.Settled now (localOrigin acor)) :
    Still ok (acorMatches now held origin acor) (some (s.acorMatches now origin acor)) s := by
  unfold acorMatches Server.acorMatches
  unfold asksGroup at h
  unfold patternFits at hfits
  dsimp only at hfits ⊢
  generalize localOrigin acor = entry at h hfits ⊢
  by_cases hstar : '*' ∈ entry
  · rw [if_pos hstar, if_pos hstar]
    unfold wildcardMatches
    dsimp only
    by_cases hpre : (entry.takeWhile (· ≠ '*')).isPrefixOf origin = true
    · rw [if_pos hpre, hpre, Bool.true_and]
      by_cases hlong : origin.length < ((entry.dropWhile (· ≠ '*')).tail).length
      · rw [if_pos hlong]
        refine .inr ⟨fun hok => ?_, rfl⟩
        have hfits := hfits hok
        simp only [List.contains_eq_mem, hstar, decide_true, Bool.not_true, hpre, Bool.false_or, Bool.or_eq_true,
          Bool.and_eq_true, decide_eq_true_eq] at hfits
        omega
      · rw [if_neg hlong]
        exact still_lift _
    · rw [if_neg hpre, Bool.not_eq_true] at *
      rw [hpre, Bool.false_and]
      exact still_lift _
  · rw [if_neg hstar, if_neg hstar]
    by_cases heq : entry = origin
    · rw [if_pos heq, decide_eq_true heq, Bool.true_or, Bool.true_or]
      exact still_pure true
    · rw [if_neg heq, decide_eq_false heq, Bool.false_or]
      have hset : s.Settled now entry := h (by simp [hstar, heq])
      unfold acorMatchesGroupMember
      rw [← hasMember_eq]
      exact still_bind (still_bind (still_find hset) fun _ _ => still_pure _) fun _ _ => still_pure _

theorem still_anyString {p : CStr → Looking Bool} {q : CStr → Bool} {l : List Json}
    (h : ∀ j ∈ l, ∀ x, j.valuestring = some x → Still ok (p x) (some (q x)) s) :
    Still ok (anyString p l) (TinyIoT.anyString q l) s := by
  induction l with
  | nil => exact still_pure false
  | cons j l ih =>
    unfold anyString TinyIoT.anyString
    refine still_bind (still_lift _) fun x hx => ?_
    have hrest := ih fun j hj => h j (List.mem_cons_of_mem _ hj)
    have hstep := still_bind (h j List.mem_cons_self x hx) (f := fun b => if b then pure true else anyString p l)
      (g := fun b => if b then some true else TinyIoT.anyString q l) fun b _ => by
        cases b with
        | true => exact still_pure true
        | false => exact hrest
    exact hstep

theorem still_ruleAcop {acr : Json} (hfits : ok → Fitting origin acr)
    (h : ∀ addr ∈ ((originators acr).filterMap fun j => j.valuestring.map localOrigin).filter (asksGroup origin),
      s.Settled now addr) : Still ok (ruleAcop now held ip origin acr) (s.ruleAcop now ip origin acr) s := by
  have hmatch : Still ok (anyString (acorMatches now held origin) (originators acr))
      (TinyIoT.anyString (s.acorMatches now origin) (originators acr)) s := by
    refine still_anyString fun j hj x hx => still_acorMatches (fun hok => hfits hok x ?_) fun hasks => ?_
    · cases j with
      | str y =>
        cases hx
        exact hj
      | _ => cases hx
    · exact h _ (List.mem_filter.mpr ⟨List.mem_filterMap.mpr ⟨j, hj, by rw [hx]; rfl⟩, hasks⟩)
  unfold ruleAcop Server.ruleAcop
  refine still_bind hmatch fun b _ => ?_
  cases b with
  | false => exact still_pure 0
  | true =>
    rw [if_pos rfl, if_pos rfl]
    refine still_bind (still_lift _) fun c _ => ?_
    cases c with
    | false => exact still_pure 0
    | true =>
      rw [if_pos rfl, if_pos rfl]
      exact still_bind (still_lift _) fun acop _ => still_pure _

/-- A loop of checks that leave the CSE alone. -/
theorem still_foldlM {α β : Type} {f : β → α → Looking β} {g : β → α → Option β} {l : List α}
    (h : ∀ b, ∀ a ∈ l, Still ok (f b a) (g b a) s) : ∀ b, Still ok (l.foldlM f b) (l.foldlM g b) s := by
  induction l with
  | nil => exact fun b => still_pure b
  | cons a l ih =>
    intro b
    rw [List.foldlM_cons, List.foldlM_cons]
    exact still_bind (h b a List.mem_cons_self) fun b' _ => ih (fun b a ha => h b a (List.mem_cons_of_mem _ ha)) b'

theorem still_getAcopOrigin {acp : RTNode} {self : Bool}
    (hfits : ok → ∀ acr ∈ rules acp.obj (if self then .pvs else .pv), Fitting origin acr)
    (h : ∀ addr ∈ groupRefs origin acp.obj (if self then .pvs else .pv), s.Settled now addr) :
    Still ok (getAcopOrigin now held ip origin acp self) (s.getAcopOrigin now ip origin acp self) s := by
  unfold getAcopOrigin Server.getAcopOrigin
  split
  · exact still_pure _
  · refine still_foldlM (fun acop acr hacr => ?_) 0
    have hrule : Still ok (ruleAcop now (acp :: held) ip origin acr) (s.ruleAcop now ip origin acr) s :=
      still_ruleAcop (fun hok => hfits hok acr hacr) fun addr haddr => h addr (List.mem_flatMap.mpr ⟨acr, hacr, haddr⟩)
    rw [show (s.ruleAcop now ip origin acr).map (acop ||| ·) =
      (s.ruleAcop now ip origin acr).bind fun a => some (acop ||| a) from Option.map_eq_bind]
    exact still_bind hrule fun a _ => still_pure _

/-- The policies of a list, found and asked one after the other. -/
theorem still_policies {l : List Json} (haddr : ∀ addr ∈ l.filterMap Json.valuestring, s.Settled now addr)
    (hgroup : ∀ acp ∈ s.policyNodes now l, ∀ addr ∈ groupRefs origin acp.obj .pv, s.Settled now addr) :
    ∀ acc : Acop × Bool, Still False (l.foldlM (policyStep now held ip origin) acc)
      (((s.policyNodes now l).foldlM (fun acop acp => (s.getAcopOrigin now ip origin acp false).map (acop ||| ·)) acc.1).map
        fun acop => (acop, acc.2 || !(s.policyNodes now l).isEmpty)) s := by
  induction l with
  | nil =>
    intro acc
    simp only [Server.policyNodes, List.filterMap_nil, List.foldlM_nil, Option.pure_def, Option.map_some, List.isEmpty_nil,
      Bool.not_true, Bool.or_false]
    exact still_pure acc
  | cons j l ih =>
    intro acc
    have ih := ih (fun addr h => haddr addr (by
        obtain ⟨k, hk, hv⟩ := List.mem_filterMap.mp h
        exact List.mem_filterMap.mpr ⟨k, List.mem_cons_of_mem _ hk, hv⟩))
      fun acp h => hgroup acp (by
        obtain ⟨k, hk, hv⟩ := List.mem_filterMap.mp h
        exact List.mem_filterMap.mpr ⟨k, List.mem_cons_of_mem _ hk, hv⟩)
    rw [List.foldlM_cons]
    -- an entry that is no policy changes nothing
    have hskip (hnone : s.policyNode now j = none) (hstep : Still False (policyStep now held ip origin acc j) (some acc) s) :
        Still False (policyStep now held ip origin acc j >>= fun acc => l.foldlM (policyStep now held ip origin) acc)
          (((s.policyNodes now (j :: l)).foldlM
            (fun acop acp => (s.getAcopOrigin now ip origin acp false).map (acop ||| ·)) acc.1).map
            fun acop => (acop, acc.2 || !(s.policyNodes now (j :: l)).isEmpty)) s := by
      rw [show s.policyNodes now (j :: l) = s.policyNodes now l from List.filterMap_cons_none hnone]
      exact still_bind (g := fun acc => _) hstep fun a ha => by
        cases ha
        exact ih acc
    cases hj : j.valuestring with
    | none =>
      refine hskip ?_ ?_
      · unfold Server.policyNode
        rw [hj]
      · unfold policyStep
        rw [hj]
        exact still_pure acc
    | some addr =>
      have hfind : Still False (find now held addr) (some ((s.findNode now addr).deref s)) s :=
        still_find (haddr addr (List.mem_filterMap.mpr ⟨j, List.mem_cons_self, hj⟩))
      cases hn : (s.findNode now addr).deref s with
      | none =>
        refine hskip ?_ ?_
        · unfold Server.policyNode
          simp only [hj, hn]
        · unfold policyStep
          rw [hj]
          rw [hn] at hfind
          exact still_bind (g := fun _ => some acc) hfind fun a ha => by
            cases ha
            exact still_pure acc
      | some acp =>
        rw [hn] at hfind
        by_cases hty : acp.ty = .acp
        · have hnode : s.policyNode now j = some acp := by
            unfold Server.policyNode
            simp only [hj, hn, if_pos hty]
          have hcons : s.policyNodes now (j :: l) = acp :: s.policyNodes now l := List.filterMap_cons_some hnode
          have horigin : Still False (getAcopOrigin now held ip origin acp false) (s.getAcopOrigin now ip origin acp false) s :=
            still_getAcopOrigin (fun h => h.elim) (hgroup acp (hcons ▸ List.mem_cons_self))
          have hstep : Still False (policyStep now held ip origin acc j)
              ((s.getAcopOrigin now ip origin acp false).bind fun acop => some (acc.1 ||| acop, true)) s := by
            unfold policyStep
            rw [hj]
            refine still_bind (r := some (some acp)) (g := fun _ =>
              (s.getAcopOrigin now ip origin acp false).bind fun acop => some (acc.1 ||| acop, true)) hfind fun a ha => ?_
            cases ha
            dsimp only
            rw [if_pos hty]
            exact still_bind horigin fun acop _ => still_pure _
          have hall := still_bind hstep fun acc' _ => ih acc'
          refine cast (congrArg (Still False _ · s) ?_) hall
          rw [hcons, List.foldlM_cons]
          cases s.getAcopOrigin now ip origin acp false with
          | none => rfl
          | some acop => simp
        · refine hskip ?_ ?_
          · unfold Server.policyNode
            simp only [hj, hn, if_neg hty]
          · unfold policyStep
            rw [hj]
            exact still_bind (g := fun _ => some acc) hfind fun a ha => by
              cases ha
              dsimp only
              rw [if_neg hty]
              exact still_pure acc

theorem still_getAcop {n : RTNode} (h : ∀ addr ∈ s.acopRefs now origin n, s.Settled now addr) :
    Still False (getAcop now ip origin n) (s.getAcop now ip origin n) s := by
  unfold Server.acopRefs at h
  unfold getAcop Server.getAcop
  split
  · exact still_pure _
  split
  · rename_i hty
    rw [if_pos hty] at h
    exact still_getAcopOrigin (fun h => h.elim) h
  · rename_i hty
    rw [if_neg hty] at h
    unfold Obj.arr at h
    cases hacpi : n.obj.get .acpi with
    | none => exact still_pure _
    | some acpi =>
      rw [hacpi] at h
      have hall := @still_policies s now ip origin [n] acpi.items
        (fun addr haddr => h addr (List.mem_append_left _ haddr))
        (fun acp hacp addr haddr => h addr (List.mem_append_right _ (List.mem_flatMap.mpr ⟨acp, hacp, haddr⟩))) (0, false)
      have hres := still_bind hall fun acc _ => still_pure (if acc.2 then acc.1 else Acop.fallback)
      refine cast (congrArg (Still False _ · s) ?_) hres
      dsimp only
      unfold Server.unionAcop Acop.union
      cases s.policyNodes now acpi.items with
      | nil => rfl
      | cons acp acps =>
        rw [Option.bind_map]
        exact Option.bind_fun_some _

theorem still_policyAllows {req : Req} {wanted : Acop} {p : Ptr} {n : RTNode}
    (h : ∀ addr ∈ s.governingRefs now origin p, s.Settled now addr) :
    Still False (policyAllows now req origin wanted p n) (s.policyAllows now req origin wanted p n) s := by
  unfold policyAllows Server.policyAllows
  unfold Server.governingRefs at h
  refine still_get ?_
  cases hgov : governing (s.ancestry p) with
  | acpi m =>
    rw [hgov] at h
    dsimp only
    rw [Option.map_eq_bind]
    exact still_bind (g := fun g => some _) (still_getAcop h) fun g _ => still_pure _
  | owner ae => exact still_pure _
  | creator => exact still_pure _

/-- Where no address that decides about a resource names an expired one, `check_privilege` decides as without lookups. -/
theorem still_checkPrivilege {req : Req} {p : Ptr} {acop : Acop} (h : s.looksSettled now req.fr p = true) :
    Still False (checkPrivilege now req p acop) (s.checkPrivilege now req p acop) s := by
  unfold checkPrivilege Server.checkPrivilege
  refine still_get ?_
  cases hp : p.deref s with
  | none => exact still_pure _
  | some n =>
    have hrefs := Server.settled_of_looksSettled h hp
    unfold Server.decisionRefs at hrefs
    dsimp only
    rw [Server.normalizedOriginator_eq]
    by_cases hadmin : req.fr = adminAeId
    · rw [if_pos hadmin, if_pos hadmin]
      exact still_pure _
    rw [if_neg hadmin, if_neg hadmin]
    by_cases hno : req.fr = [] ∨ req.fr = ['C']
    · rw [if_pos hno, if_pos hno]
      exact still_pure _
    rw [if_neg hno, if_neg hno]
    by_cases hty : n.ty = .acp
    · rw [if_pos hty] at hrefs
      rw [if_pos hty, if_pos hty, Option.map_eq_bind]
      exact still_bind (g := fun g => some _) (@still_getAcopOrigin False s now _ _ _ n true (fun h => h.elim) hrefs)
        fun g _ => still_pure _
    · rw [if_neg hty] at hrefs
      rw [if_neg hty, if_neg hty]
      refine still_bind (still_lift _) fun b _ => ?_
      cases b with
      | true => exact still_pure true
      | false => exact still_policyAllows hrefs

end Looking

/-- What `check_privilege` answers where none of its lookups meets an expired resource. -/
theorem Server.privileged_settled {s : Server} {now : CStr} {req : Req} {p : Ptr} {acop : Acop} {b : Bool}
    (h : s.looksSettled now req.fr p = true) (hb : s.privileged now req p acop = some b) :
    s.checkPrivilege now req p acop = some b :=
  (Looking.still_checkPrivilege h).fst hb

end TinyIoT
