/-
Requests to resources of every type, one after the other: what a request stores and under which identifiers, and what
stays of the resources there are. A resource keeps what it got at its creation as long as identifiers are not given
twice and no time series is sent a body that names it: the update of a time series is the one handler that lets such a
body through.
-/
import TinyIoT.Requests.Updates
import TinyIoT.Maintained.Requests
import TinyIoT.Lib.Reach
import TinyIoT.Server.Boot

namespace TinyIoT

variable {K : List Attr} {w : Outside} {req : Req} {s s₁ s' : Server} {n : RTNode} {r : Resp} {ty : ResourceType}

/-! ## What a request stores -/

/-- The identifiers a create handler stores under, in the order they are drawn. -/
def createIds (env : Env) (req : Req) (c : Nat) : ResourceType → List (Option CStr)
  | .ae => [aeRi req.fr (givenRi env .ae c req.pc)]
  | .fcnt => [givenRi env .fcnt c req.pc, some (resourceIdentifier .fcin env.now ((c + 1) % 10000)).1]
  | .acp => [givenRi env .acp c req.pc]
  | .cnt => [givenRi env .cnt c req.pc]
  | .cin => [givenRi env .cin c req.pc]
  | .grp => [givenRi env .grp c req.pc]
  | .csr => [givenRi env .csr c req.pc]
  | .sub => [givenRi env .sub c req.pc]
  | .ts => [givenRi env .ts c req.pc]
  | .tsi => [givenRi env .tsi c req.pc]
  | .acpa => [givenRi env .acpa c req.pc]
  | .aea => [givenRi env .aea c req.pc]
  | .cba => [givenRi env .cba c req.pc]
  | .cnta => [givenRi env .cnta c req.pc]
  | .cina => [givenRi env .cina c req.pc]
  | .grpa => [givenRi env .grpa c req.pc]
  | .tsa => [givenRi env .tsa c req.pc]
  | _ => []

namespace Server

/-- The checks of a create request of its name and place, and for an AE that of its identifier among the AEs below the
parent. -/
def admits (s : Server) (req : Req) (ty : ResourceType) (parent : RTNode) : Bool :=
  (s.checkRnDuplicate req ty parent).isNone && ResourceType.isValidChildType parent.ty ty &&
    !(ty = .ae && (s.children parent.id).roots.any fun c => c.ty = .ae && c.ri = some req.fr)

/-- The node of the tree an address leads to; an expired one is gone. -/
def aimed (s : Server) (now addr : CStr) : Option RTNode :=
  match (s.findRtnode now addr).2 with
  | .inTree i => s.node? i
  | _ => none

/-- A target that is found is found in the server as it was. -/
theorem findRtnode_inTree {now addr : CStr} {i : Nat} (h : (s.findRtnode now addr).2 = .inTree i) :
    (s.findRtnode now addr).1 = s := by
  rcases findRtnode_cases (s := s) now addr with hf | ⟨n, -, -, hf⟩ | ⟨n, -, -, -, hf⟩
  · rw [hf]
  · rw [hf]
  · rw [hf] at h
    cases h

theorem aimed_mem {now addr : CStr} (h : s.aimed now addr = some n) : n ∈ s.tree.nodes := by
  unfold aimed at h
  split at h
  · exact (node?_mem h).1
  · cases h

theorem createsAs_createHandler (hK : Stamps K) (hs : s.Sane) (hl : s.LatestAreCins) (hn : n ∈ s.tree.nodes)
    (hla : ty ≠ .cin → req.pc.str .rn ≠ some "la".toList) (h : s.createHandler w req ty n = some (s', r)) :
    CreatesAs K s (createIds w.env req s.riCount ty) ty (req.pc.get .acpi) s' r := by
  have hrefused : ∀ {r₁ : Resp}, r₁.rsc ≠ .created → some (s, r₁) = some (s', r) →
      CreatesAs K s [] ty (req.pc.get .acpi) s' r := by
    intro r₁ hr he
    cases he
    exact .of_edits (Nat.zero_le _) .refl hr
  unfold createHandler at h
  cases ty with
  | ae => exact createsAs_createAe hK hs (hla (by decide)) h
  | acp => exact createsAs_createAcp hK hs (hla (by decide)) h
  | cnt => exact createsAs_createCnt hK hs (hla (by decide)) h
  | cin => exact createsAs_createCin hK hs hl h
  | grp => exact createsAs_createGrp hK hs (hla (by decide)) h
  | csr => exact createsAs_createCsr hK hs (hla (by decide)) h
  | sub => exact createsAs_createSub hK hs (hla (by decide)) h
  | ts => exact createsAs_createTs hK hs (hla (by decide)) h
  | tsi => exact createsAs_createTsi hK hs hn (hla (by decide)) (answer_some h)
  | fcnt => exact createsAs_createFcnt hK hs hn (hla (by decide)) h
  | acpa => exact createsAs_createAnnc hK hs (hla (by decide)) h
  | aea => exact createsAs_createAnnc hK hs (hla (by decide)) h
  | cba => exact createsAs_createAnnc hK hs (hla (by decide)) h
  | cnta => exact createsAs_createAnnc hK hs (hla (by decide)) h
  | cina => exact createsAs_createAnnc hK hs (hla (by decide)) h
  | grpa => exact createsAs_createAnnc hK hs (hla (by decide)) h
  | tsa => exact createsAs_createAnnc hK hs (hla (by decide)) h
  | fcin =>
    refine hrefused ?_ h
    split <;> decide
  | _ => exact hrefused (by decide) h

/-- An originator that names an AE below the parent is refused. -/
theorem createAe_registered {env : Env} (hdup : ((s.children n.id).roots.any fun c => c.ty = .ae && c.ri = some req.fr) = true)
    (h : s.createAe env req n = some (s', r)) : s' = s ∧ r.rsc ≠ .created := by
  have hany : ((s.children n.id).roots.filter fun c => c.ty = .ae).any (fun c => c.ri = some req.fr) = true := by
    rw [List.any_filter]
    exact hdup
  unfold createAe checkAeiDuplicate at h
  dsimp only at h
  rw [if_pos hany] at h
  cases h
  exact ⟨rfl, by decide⟩

/-- A create request of any type; one that is not admitted changes nothing. -/
theorem createsAs_createAny (hK : Stamps K) (hs : s.Sane) (hl : s.LatestAreCins) (hn : n ∈ s.tree.nodes)
    (hla : s.admits req ty n = true → ty ≠ .cin → req.pc.str .rn ≠ some "la".toList) (h : s.createAny w req ty n = some (s', r)) :
    CreatesAs K s (if s.admits req ty n then createIds w.env req s.riCount ty else []) ty (req.pc.get .acpi) s' r := by
  rcases createAny_cases h with ⟨rfl, hr⟩ | ⟨hdup, hchild, s₁, hc, hcase⟩
  · exact .of_edits (Nat.zero_le _) .refl hr
  · have hmade : CreatesAs K s (if s.admits req ty n then createIds w.env req s.riCount ty else []) ty
        (req.pc.get .acpi) s₁ r := by
      split
      · rename_i hadm
        exact createsAs_createHandler hK hs hl hn (hla hadm) hc
      · rename_i hadm
        -- an AE that is registered
        unfold admits at hadm
        rw [hdup, hchild] at hadm
        simp only [Option.isNone_none, Bool.and_self, Bool.true_and, Bool.not_eq_true', Bool.not_eq_false,
          Bool.and_eq_true, decide_eq_true_eq] at hadm
        obtain ⟨rfl, hany⟩ := hadm
        obtain ⟨rfl, hr⟩ := createAe_registered hany hc
        exact .of_edits (Nat.zero_le _) .refl hr
    rcases hcase with rfl | rfl
    · exact hmade
    · exact hmade.edits (edits_incrementParentStatetag hK (hmade.choose_spec.choose_spec.2.1.sane hs) _) hK hs

/-- A request is answered without its handler, or the handler runs on the node the address leads to. -/
theorem onTarget_cases {now addr : CStr} {loose : Resp} {k : Server → RTNode → Option (Server × Resp)}
    (h : s.onTarget now addr loose k = some (s', r)) : s' = (s.findRtnode now addr).1 ∨
      ∃ n, s.aimed now addr = some n ∧ k s n = some (s', r) := by
  unfold onTarget at h
  unfold aimed
  dsimp only at h
  split at h
  · cases h
    exact .inl rfl
  · cases h
    exact .inl rfl
  · rename_i i hp
    rw [hp]
    rw [findRtnode_inTree hp] at h
    dsimp only
    split at h
    · cases h
      exact .inl (findRtnode_inTree hp).symm
    · rename_i m hm
      exact .inr ⟨m, hm, h⟩

/-- The identifiers a body is stored under, in the order they are drawn. -/
def Write.ids (w : Outside) (req : Req) (s : Server) (n : RTNode) : Write → List (Option CStr)
  | .create ty => if s.admits req ty n then createIds w.env req s.riCount ty else []
  | .update ty => if ty = .fcnt then [some (resourceIdentifier .fcin w.env.now s.riCount).1] else []

/-- No other resource than an instance is created under the name of the latest one. -/
def Write.NamesNoLatest (req : Req) (s : Server) (n : RTNode) : Write → Prop
  | .create ty => s.admits req ty n = true → ty ≠ .cin → req.pc.str .rn ≠ some "la".toList
  | .update _ => True

/-- What is stored goes by identifiers of its own, and nothing but an instance is given the name of the latest one. -/
structure Write.Apart (w : Outside) (req : Req) (s : Server) (n : RTNode) (a : Write) : Prop where
  new : ∀ id ∈ a.ids w req s n, ∀ ri ∈ id, ri ≠ [] ∧ ¬ s.Knows ri
  nodup : ((a.ids w req s n).filterMap fun id => id).Nodup
  name : a.NamesNoLatest req s n

instance (ri : CStr) : Decidable (s.Knows ri) := inferInstanceAs (Decidable (_ ∨ _))

instance (a : Write) : Decidable (a.NamesNoLatest req s n) :=
  match a with
  | .create _ => inferInstanceAs (Decidable (_ → _ → _))
  | .update _ => inferInstanceAs (Decidable True)

instance (a : Write) : Decidable (a.Apart w req s n) :=
  decidable_of_iff ((∀ id ∈ a.ids w req s n, ∀ ri ∈ id, ri ≠ [] ∧ ¬ s.Knows ri) ∧
    ((a.ids w req s n).filterMap fun id => id).Nodup ∧ a.NamesNoLatest req s n)
    ⟨fun h => ⟨h.1, h.2.1, h.2.2⟩, fun h => ⟨h.new, h.nodup, h.name⟩⟩

/-- A body for a time series that is updated restates what it names of the attributes from its creation. -/
def Write.Honest (req : Req) (n : RTNode) : Write → Prop
  | .create _ => True
  | .update _ => n.ty = .ts → Restates n.obj req.pc

/-- What a body leads to. -/
theorem edits_write {a : Write} (hs : s.Sane) (hl : s.LatestAreCins) (hn : n ∈ s.tree.nodes)
    (ha : a.NamesNoLatest req s n) (hts : a.Honest req n) (h : a.run w req s n = some (s', r)) : ∃ d l, d ≤ (a.ids w req s n).length ∧
      Edits stampAttrs s d l s' ∧ (l.map (Obj.str · .ri)).Sublist ((a.ids w req s n).take d) := by
  cases a with
  | create ty =>
    obtain ⟨d, l, hd, he, hids, -⟩ := createsAs_createAny stamps_stampAttrs hs hl hn ha h
    exact ⟨d, l, hd, he, hids⟩
  | update ty =>
    obtain ⟨d, l, he, ⟨hd, hids⟩, hno⟩ := edits_updateAny hs hn hts h
    rw [show (Write.update ty).ids w req s n =
      if ty = .fcnt then [some (resourceIdentifier .fcin w.env.now s.riCount).1] else [] from rfl]
    split
    · exact ⟨d, l, hd, he, hids⟩
    · rename_i hty
      obtain rfl := hno hty
      exact ⟨0, l, le_rfl, he, hids⟩

/-- The identifiers are new and each stands for one object. -/
theorem Write.Apart.fresh {a : Write} (ha : a.Apart w req s n) {d : Nat} {l : List Obj}
    (h : (l.map (Obj.str · .ri)).Sublist ((a.ids w req s n).take d)) : Fresh s l := by
  have hsub : (l.map (Obj.str · .ri)).Sublist (a.ids w req s n) := h.trans (List.take_sublist _ _)
  refine ⟨fun o ho ri hri => ha.new _ (hsub.subset (List.mem_map.mpr ⟨o, ho, rfl⟩)) ri hri, ?_⟩
  have := ha.nodup.sublist (hsub.filterMap fun id => id)
  rwa [List.filterMap_map] at this

end Server

/-! ## Requests, one after the other -/

/-- A request to this CSE. One to a fan-out point is one request after the other to the members. -/
inductive Primitive where
  | write (a : Server.Write) (req : Req)
  | delete (req : Req)
  | retrieve (req : Req)

namespace Primitive

/-- The server after the request; `none` where it is not answered. -/
def run (w : Outside) (s : Server) : Primitive → Option Server
  | write a req => (s.onTarget w.env.now req.target (handleError .operationNotAllowed "operation is not allowed")
      fun s n => a.run w req s n).map Prod.fst
  | delete req => (s.requestDelete w.env.now req).map Prod.fst
  | retrieve req => some (s.findRtnode w.env.now req.target).1

/-- What the request brings gets identifiers of its own. -/
def Apart (w : Outside) (s : Server) : Primitive → Prop
  | write a req => ∀ n ∈ s.aimed w.env.now req.target, a.Apart w req s n
  | _ => True

instance (p : Primitive) : Decidable (p.Apart w s) :=
  match p with
  | .write a req => inferInstanceAs (Decidable (∀ n ∈ s.aimed w.env.now req.target, a.Apart w req s n))
  | .delete _ => inferInstanceAs (Decidable True)
  | .retrieve _ => inferInstanceAs (Decidable True)

/-- An update of a time series names what it got at its creation only with the value it has. -/
def Honest (w : Outside) (s : Server) : Primitive → Prop
  | write a req => ∀ n, s.aimed w.env.now req.target = some n → a.Honest req n
  | _ => True

end Primitive

theorem Fresh.nil (s : Server) : Fresh s [] := ⟨fun _ ho => (List.not_mem_nil ho).elim, List.nodup_nil⟩

/-- A request is a run of changes that stores what is new. -/
theorem Primitive.edits {p : Primitive} (hs : s.Sane) (hl : s.LatestAreCins) (ha : p.Apart w s) (hh : p.Honest w s)
    (h : p.run w s = some s') : ∃ d l, Edits stampAttrs s d l s' ∧ Fresh s l := by
  cases p with
  | write a req =>
    obtain ⟨⟨s₂, r⟩, h₂, rfl⟩ := Option.map_eq_some_iff.mp h
    rcases Server.onTarget_cases h₂ with rfl | ⟨n, hn, h₂⟩
    · exact ⟨0, [], Server.edits_findRtnode stamps_stampAttrs hs req.target, .nil _⟩
    · obtain ⟨d, l, -, he, hids⟩ := Server.edits_write hs hl (Server.aimed_mem hn) (ha n hn).name (hh n hn) h₂
      exact ⟨d, l, he, (ha n hn).fresh hids⟩
  | delete req =>
    obtain ⟨⟨s₂, r⟩, h₂, rfl⟩ := Option.map_eq_some_iff.mp h
    exact ⟨0, [], Server.edits_requestDelete stamps_stampAttrs hs h₂, .nil _⟩
  | retrieve req =>
    cases h
    exact ⟨0, [], Server.edits_findRtnode stamps_stampAttrs hs req.target, .nil _⟩

/-! ## The first state -/

/-- The row of a stored object is in step with what the object becomes. -/
theorem inStepOn_stored (hu : .uri ∉ K) {o x : Obj} (hx : SameOn K o x) :
    InStepOn K x (Assoc.drop (Assoc.overlay column o []) .uri) := by
  intro k hk v hv
  rw [Db.get_stored o (ne_of_mem_of_not_mem hk hu), ← hx k hk, hv]
  rfl

theorem stamped_boot (hK : Stamps K) (h : Booted s) : Stamped K s ∧ s.LatestAreCins := by
  obtain ⟨env, h⟩ := h
  have hu : .uri ∉ K := fun hk => absurd (hK.sub hk) (by decide)
  unfold boot at h
  obtain ⟨db₁, hdb₁, h⟩ := Option.bind_eq_some_iff.mp h
  obtain ⟨cb, hcb, h⟩ := Option.bind_eq_some_iff.mp h
  rw [show initAcp env 0 = ((initAcp env 0).1, (initAcp env 0).2) from rfl] at h
  dsimp only at h
  obtain ⟨db, hdb, h⟩ := Option.bind_eq_some_iff.mp h
  obtain ⟨acp, hacp, hend⟩ := Option.bind_eq_some_iff.mp h
  obtain ⟨t, tbl, -, -, rfl⟩ := Db.dbStoreResource_some hdb₁
  obtain ⟨hid, hty, hrn, -⟩ := createRtnode_some hcb
  obtain ⟨hid', hty', hrn', -⟩ := createRtnode_some hacp
  have hcbobj : SameOn K (initCse env) cb.obj := hK.createRtnode hcb
  have hone : ∀ {α β : Type} (f : α → Option β) (a : α), ([a].filterMap f).Nodup := by
    intro α β f a
    cases ha : f a <;> simp [ha]
  -- the CSEBase alone
  have hcbri : cb.ri = some cseBaseRi := Obj.str_congr (hcbobj .ri hK.ri)
  have hnodes : ∀ m ∈ (Forest.node cb .nil .nil).nodes, m = cb := by simp [Forest.nodes]
  have hrow : ∀ k ∈ K, Obj.get (Assoc.drop (Assoc.overlay column (initCse env) []) .uri) k = ((initCse env).get k).bind column :=
    fun k hk => Db.get_stored _ (ne_of_mem_of_not_mem hk hu)
  have hbase : Stamped K ⟨.node cb .nil .nil, [], [⟨cseBaseName, tbl, Assoc.drop (Assoc.overlay column (initCse env) []) .uri⟩],
      1, (initAcp env 0).2⟩ := by
    refine ⟨⟨List.nodup_singleton _, fun m hm => ?_⟩, fun m hm q hq _ _ _ => ?_, ?_, fun m hm m' hm' _ _ _ _ => ?_,
      fun q hq k hk v hv => ?_⟩
    · rw [hnodes m hm]
      exact hid ▸ Nat.zero_lt_one
    · rw [hnodes m hm, List.mem_singleton.mp hq]
      exact inStepOn_stored hu hcbobj
    · exact hone _ _
    · rw [hnodes m hm, hnodes m' hm']
    · rw [List.mem_singleton.mp hq] at hv
      obtain ⟨x, -, hx⟩ := Option.bind_eq_some_iff.mp ((hrow k hk).symm.trans hv)
      exact Stamped.column_idem hx
  -- the policy below it
  have hfresh : Fresh ⟨.node cb .nil .nil, [], [⟨cseBaseName, tbl, Assoc.drop (Assoc.overlay column (initCse env) []) .uri⟩],
      1, (initAcp env 0).2⟩ [(initAcp env 0).1] := by
    refine ⟨fun o ho ri hri => ?_, hone _ _⟩
    rw [List.mem_singleton.mp ho] at hri
    cases hri
    refine ⟨resourceIdentifier_ne_nil .acp env.now 0, ?_⟩
    rintro (⟨m, hm, hmri⟩ | ⟨q, hq, hqri⟩)
    · rw [hnodes m hm, hcbri] at hmri
      cases hmri
    · rw [List.mem_singleton.mp hq] at hqri
      have hown : Obj.str (Assoc.drop (Assoc.overlay column (initCse env) []) .uri) .ri = some cseBaseRi :=
        Obj.str_of_get (hrow .ri hK.ri)
      cases hown.symm.trans hqri
  have hacpobj : SameOn K (initAcp env 0).1 acp.obj := hK.createRtnode hacp
  obtain ⟨hst, -⟩ := hbase.create (x := { acp with uri := cb.uri ++ '/' :: acp.rn }) hK.ri hu cb.id hdb hid'
    hacpobj hfresh
  rw [Server.addChildResourceTree_plain (by rw [hty']; decide) (by rw [hty']; decide)] at hend
  cases hend
  refine ⟨⟨hst.sane, hst.inStep, hst.rows, hst.nodes, hst.plain⟩, fun m hm hla => ?_⟩
  rcases (hbase.sane.linked [] cb.id (x := { acp with uri := cb.uri ++ '/' :: acp.rn }) hid').2 m hm with rfl | hm
  · have hname : "defaultACP".toList = "la".toList := (Option.some.inj hrn').trans hla
    cases hname
  · rw [hnodes m hm] at hla
    have hname : cseBaseName = "la".toList := (Option.some.inj hrn).trans hla
    cases hname

/-! ## What stays -/

/-- A request that gives no identifier a second time and restates what it names of the attributes from the creation. -/
def StampStep (s s' : Server) : Prop := ∃ (w : Outside) (p : Primitive), p.Apart w s ∧ p.Honest w s ∧ p.run w s = some s'

/-- Such a request, and there is still a row of this identifier. -/
def StampStepWith (ri : CStr) (s s' : Server) : Prop := StampStep s s' ∧ ∃ r ∈ s'.db, r.ri = some ri

/-- What a run of changes leaves under an identifier there was. -/
theorem Edits.row {d : Nat} {l : List Obj} (h : Edits K s d l s') (hK : Stamps K) (hs : Stamped K s) (hf : Fresh s l)
    {q q' : Row} {ri : CStr} (hq : q ∈ s.db) (hq' : q' ∈ s'.db) (hri : q.ri = some ri) (hri' : q'.ri = some ri) :
    SameOn K q.obj q'.obj := by
  rcases (h.keeps hK hs hf).2.rows q' hq' with ⟨q₀, hq₀, hsame⟩ | ⟨o, ho, hcol⟩
  · have : q₀.ri = some ri := (Obj.str_congr (hsame .ri hK.ri)).symm.trans hri'
    exact hs.row_eq hq₀ hq this hri ▸ hsame
  · -- a new row has a new identifier
    have hori : o.str .ri = some ri := str_of_column ((hcol .ri hK.ri).symm.trans (Obj.get_of_str hri'))
    exact absurd (.inr ⟨q, hq, hri⟩) (hf.new o ho ri hori).2

theorem StampStep.edits (h : StampStep s s') (hs : s.Sane) (hl : s.LatestAreCins) :
    ∃ d l, Edits stampAttrs s d l s' ∧ Fresh s l := by
  obtain ⟨w, p, ha, hh, h⟩ := h
  exact Primitive.edits hs hl ha hh h

theorem stamped_of_run (h : Reach Booted StampStep s) : Stamped stampAttrs s ∧ s.LatestAreCins := by
  refine h.inv (fun s hs => stamped_boot stamps_stampAttrs hs) fun s s' hi hst => ?_
  obtain ⟨d, l, he, hf⟩ := hst.edits hi.1.sane hi.2
  exact ⟨(he.keeps stamps_stampAttrs hi.1 hf).1, he.latestAreCins stamps_stampAttrs hi.1.sane hi.2⟩

/-- In every run of such requests a resource keeps what it got at its creation: its node, unless that caches instances,
from any state on; its row as long as there is one; and memory shows what the rows show. -/
theorem stamps_fixed (h : Reach Booted StampStep s) :
    (∀ s', Relation.ReflTransGen StampStep s s' → ∀ n ∈ s.tree.nodes, ∀ n' ∈ s'.tree.nodes, n'.id = n.id → n.ty ≠ .cin →
      SameOn stampAttrs n.obj n'.obj) ∧
    (∀ ri s', Relation.ReflTransGen (StampStepWith ri) s s' → ∀ q ∈ s.db, ∀ q' ∈ s'.db, q.ri = some ri → q'.ri = some ri →
      SameOn stampAttrs q.obj q'.obj) ∧
    ∀ n ∈ s.tree.nodes, ∀ q ∈ s.db, ∀ ri, n.ri = some ri → q.ri = some ri → InStepOn stampAttrs n.obj q.obj := by
  refine ⟨fun s' hrun n hn n' hn' hid hty => ?_, fun ri s' hrun q hq q' hq' hri hri' => ?_, fun n hn q hq ri =>
    (stamped_of_run h).1.inStep n hn q hq ri⟩
  · have hlt := (stamped_of_run h).1.sane.below n hn
    -- the node at the address, followed through the run
    have hall : (Stamped stampAttrs s' ∧ s'.LatestAreCins) ∧ s.nextId ≤ s'.nextId ∧
        ∀ n' ∈ s'.tree.nodes, n'.id = n.id → n'.ty = n.ty ∧ SameOn stampAttrs n.obj n'.obj := by
      clear hn' hid n'
      induction hrun with
      | refl =>
        refine ⟨stamped_of_run h, le_rfl, fun n' hn' hid => ?_⟩
        rw [(stamped_of_run h).1.sane.ids.eq hn' hn hid]
        exact ⟨rfl, .refl _ _⟩
      | tail _ hstep ih =>
        obtain ⟨hst, hle, hshow⟩ := ih
        obtain ⟨d, l, he, hf⟩ := hstep.edits hst.1.sane hst.2
        refine ⟨⟨(he.keeps stamps_stampAttrs hst.1 hf).1, he.latestAreCins stamps_stampAttrs hst.1.sane hst.2⟩,
          hle.trans he.nextId_le, fun n' hn' hid => ?_⟩
        obtain ⟨m, hm, hmid, hmty, hsame⟩ := he.node stamps_stampAttrs hst.1.sane n' hn' (hid ▸ hlt.trans_le hle)
        obtain ⟨hty', hobj⟩ := hshow m hm (hmid.trans hid)
        exact ⟨hmty.symm.trans hty', hobj.trans (hsame (hty' ▸ hty))⟩
    exact (hall.2.2 n' hn' hid).2
  · have hall : (Stamped stampAttrs s' ∧ s'.LatestAreCins) ∧ (∃ q' ∈ s'.db, q'.ri = some ri) ∧
        ∀ q' ∈ s'.db, q'.ri = some ri → SameOn stampAttrs q.obj q'.obj := by
      clear hq' hri' q'
      induction hrun with
      | refl =>
        refine ⟨stamped_of_run h, ⟨q, hq, hri⟩, fun q' hq' hri' => ?_⟩
        rw [(stamped_of_run h).1.row_eq hq' hq hri' hri]
        exact .refl _ _
      | tail _ hstep ih =>
        obtain ⟨hst, ⟨q₁, hq₁, hri₁⟩, hshow⟩ := ih
        obtain ⟨d, l, he, hf⟩ := hstep.1.edits hst.1.sane hst.2
        exact ⟨⟨(he.keeps stamps_stampAttrs hst.1 hf).1, he.latestAreCins stamps_stampAttrs hst.1.sane hst.2⟩, hstep.2,
          fun q' hq' hri' => (hshow q₁ hq₁ hri₁).trans (he.row stamps_stampAttrs hst.1 hf hq₁ hq' hri₁ hri')⟩
    exact hall.2.2 q' hq' hri'

/-! ## Two runs -/

/-- Nothing outside answers, and there are no definitions of flexContainers. -/
def quietOutside : Outside where
  toWorld := quietWorld
  sdt := []
  backend := .postgresql
  print := fun _ => []
  later := fun _ => []
  shortname := none
  forwarded := .badRequest

/-- The administrator creates a container and a time series in it. -/
def createNewTs : List Primitive :=
  [.write (.create .cnt) (adminReq .create "TinyIoT" .cnt [(.rn, .str "c".toList)]),
    .write (.create .ts) (adminReq .create "TinyIoT/c" .ts [(.rn, .str "t".toList)])]

/-- The time series is updated with this body. -/
def updateNewTs (body : Obj) : Primitive := .write (.update .ts) (adminReq .update "TinyIoT/c/t" .ts body)

/-- The request, where what it brings gets identifiers of its own. -/
def apartRun (s : Server) (p : Primitive) : Option Server := if p.Apart quietOutside s then p.run quietOutside s else none

theorem stampStep_apartRun {p : Primitive} (h : apartRun s p = some s') (hh : p.Honest quietOutside s) : StampStep s s' := by
  unfold apartRun at h
  split at h
  · rename_i ha
    exact ⟨quietOutside, p, ha, hh, h⟩
  · cases h

theorem stamps_fixed_after_update : ∃ s s', Reach Booted StampStep s ∧ Relation.ReflTransGen StampStep s s' ∧
    (s'.node? 3).any (fun n => n.obj.num .mni = some 5) = true ∧
    ∀ n ∈ s.tree.nodes, ∀ n' ∈ s'.tree.nodes, n'.id = n.id → n.ty ≠ .cin → SameOn stampAttrs n.obj n'.obj := by
  have hrun : ((boot firstDay).bind fun s => createNewTs.foldlM apartRun s).any (fun s =>
      (apartRun s (updateNewTs [(.mni, .int 5)])).any fun s' => (s'.node? 3).any fun n => n.obj.num .mni = some 5) = true := by
    decide +kernel
  obtain ⟨s, hs, h⟩ := (Option.any_eq_true _ _).mp hrun
  obtain ⟨s', hs', h⟩ := (Option.any_eq_true _ _).mp h
  obtain ⟨s₀, hb, hs⟩ := Option.bind_eq_some_iff.mp hs
  have hreach : Reach Booted StampStep s := by
    unfold createNewTs at hs
    simp only [List.foldlM_cons, List.foldlM_nil, Option.bind_eq_bind, Option.bind_eq_some_iff, Option.pure_def,
      Option.some.injEq] at hs
    obtain ⟨s₁, h₁, s₂, h₂, rfl⟩ := hs
    exact ((Reach.start ⟨firstDay, hb⟩).next (stampStep_apartRun h₁ fun _ _ => trivial)).next
      (stampStep_apartRun h₂ fun _ _ => trivial)
  have hupdate : Relation.ReflTransGen StampStep s s' := by
    refine .single (stampStep_apartRun hs' fun n _ _ e he hk => ?_)
    rw [List.mem_singleton.mp he] at hk
    exact absurd hk (by decide)
  exact ⟨s, s', hreach, hupdate, h, (stamps_fixed hreach).1 s' hupdate⟩

/-- Any request. -/
def PrimitiveStep (s s' : Server) : Prop := ∃ w p, Primitive.run w s p = some s'

/-- A time series that is sent another name takes it. -/
theorem not_stamps_fixed_renamed : ¬ ∀ s, Reach Booted PrimitiveStep s → ∀ s', Relation.ReflTransGen PrimitiveStep s s' →
    ∀ n ∈ s.tree.nodes, ∀ n' ∈ s'.tree.nodes, n'.id = n.id → n.ty ≠ .cin → SameOn stampAttrs n.obj n'.obj := by
  intro hall
  have hrun : ((boot firstDay).bind fun s => createNewTs.foldlM (Primitive.run quietOutside) s).any (fun s =>
      ((updateNewTs [(.rn, .str "u".toList)]).run quietOutside s).any fun s' =>
        s.tree.nodes.any fun n => n.ty ≠ .cin && s'.tree.nodes.any fun n' => n'.id = n.id && n'.obj.str .rn ≠ n.obj.str .rn) =
      true := by decide +kernel
  obtain ⟨s, hs, h⟩ := (Option.any_eq_true _ _).mp hrun
  obtain ⟨s', hs', h⟩ := (Option.any_eq_true _ _).mp h
  obtain ⟨s₀, hb, hs⟩ := Option.bind_eq_some_iff.mp hs
  obtain ⟨n, hn, h⟩ := List.any_eq_true.mp h
  rw [Bool.and_eq_true] at h
  obtain ⟨n', hn', hdiff⟩ := List.any_eq_true.mp h.2
  simp only [Bool.and_eq_true, decide_eq_true_eq] at hdiff
  have hreach : Reach Booted PrimitiveStep s :=
    Reach.of_foldlM (fun _ p _ hp => ⟨quietOutside, p, hp⟩) createNewTs (.start ⟨firstDay, hb⟩) hs
  have hsame := hall s hreach s' (.single ⟨quietOutside, _, hs'⟩) n hn n' hn' hdiff.1 (of_decide_eq_true h.1)
  exact hdiff.2 (Obj.str_congr (hsame .rn (by decide)))

end TinyIoT
