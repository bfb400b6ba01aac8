/-
The requests that create or update a container, an instance, a group, a time series, an instance of a time
series or a subscription, and the values the CSE maintains. `create_ts` and `create_tsi` delete the keys before
they add their own, one entry of each; `update_ts` refuses them; the others take what the body has of them: a
create request adds its own entries after those of the body, an update merges the body into the resource.
-/
import TinyIoT.Maintained.Groups
import TinyIoT.Requests.Handlers

namespace TinyIoT

/-! ## One entry of a key is deleted -/

section

variable {o : Obj} {req : Req}

/-- A body with no key twice, of those the CSE maintains. -/
def namedOnce (ty : ResourceType) (body : Obj) : Bool :=
  ty.maintained.all fun k => decide ((Assoc.entries body k).length ≤ 1)

theorem namedOnce_iff {ty : ResourceType} :
    namedOnce ty o = true ↔ ∀ k ∈ ty.maintained, (Assoc.entries o k).length ≤ 1 := by
  unfold namedOnce
  simp only [List.all_eq_true, decide_eq_true_eq]

theorem del_of_filterKeys {p : Attr → Bool} {k : Attr} (hk : p k = false) (o : Obj) :
    Obj.del (Assoc.filterKeys p o) k = Assoc.filterKeys p o := by
  refine Assoc.del_eq_self ?_
  rw [Assoc.get_filterKeys, hk]
  rfl

theorem resetTs_unclaimed (h : namedOnce .ts o = true) : resetTs (unclaimed .ts o) = resetTs o := by
  have hone := namedOnce_iff.mp h
  have hdel : (((o.del .mdc).del .cni).del .cbs).del .mdlt = unclaimed .ts o := by
    refine (Assoc.foldl_del_eq_filterKeys [.mdc, .cni, .cbs, .mdlt] (m := o) fun k hk => hone k ?_).trans ?_
    · revert k
      decide
    · unfold unclaimed
      congr 1
      funext k
      cases k <;> rfl
  have hnone : (((Obj.del (unclaimed .ts o) .mdc).del .cni).del .cbs).del .mdlt = unclaimed .ts o := by
    unfold unclaimed
    rw [del_of_filterKeys (by decide), del_of_filterKeys (by decide), del_of_filterKeys (by decide),
      del_of_filterKeys (by decide)]
  unfold resetTs
  dsimp only
  rw [hdel, hnone]

/-! ## The checks of a time series do not read them -/

theorem validateTs_unclaimed (o : Obj) (op : Operation) : validateTs (unclaimed .ts o) op = validateTs o op := by
  unfold validateTs unclaimed
  rw [validateMandatoryAttrs_filterKeys (by decide)]
  simp only [List.any_cons, List.any_nil, Obj.get_filterKeys (p := ResourceType.ts.free) (k := .pei) (by decide),
    Obj.get_filterKeys (p := ResourceType.ts.free) (k := .peid) (by decide),
    Obj.get_filterKeys (p := ResourceType.ts.free) (k := .mni) (by decide),
    Obj.get_filterKeys (p := ResourceType.ts.free) (k := .mbs) (by decide),
    Obj.get_filterKeys (p := ResourceType.ts.free) (k := .mdn) (by decide),
    Obj.get_filterKeys (p := ResourceType.ts.free) (k := .mdt) (by decide)]
  rfl

theorem createPeriod_unclaimed (o : Obj) :
    createPeriod (unclaimed .ts o) = (unclaimed .ts (createPeriod o).1, (createPeriod o).2) := by
  unfold createPeriod unclaimed
  rw [Obj.get_filterKeys (by decide)]
  split
  · rw [Obj.has_filterKeys (by decide)]
    split
    · rw [Obj.del_filterKeys (by decide), Obj.del_filterKeys (by decide)]
    · rw [Obj.del_filterKeys (by decide)]
  · split
    · rw [Obj.del_filterKeys (by decide), Obj.del_filterKeys (by decide)]
    · rw [Obj.has_filterKeys (by decide), Obj.add_filterKeys (by decide)]
      split <;> rfl

theorem checkTsCnf_unclaimed (o : Obj) : checkTsCnf (unclaimed .ts o) = checkTsCnf o := by
  unfold checkTsCnf unclaimed
  rw [Obj.get_filterKeys (by decide)]

theorem orAdd_unclaimed {ty : ResourceType} {k : Attr} (hk : ty.free k = true) (o : Obj) (v : Json) :
    (unclaimed ty o).orAdd k v = unclaimed ty (o.orAdd k v) :=
  Obj.orAdd_filterKeys hk o v

theorem get_unclaimed {ty : ResourceType} {k : Attr} (hk : ty.free k = true) (o : Obj) :
    (unclaimed ty o).get k = o.get k :=
  Obj.get_filterKeys hk o

theorem namedOnce_congr {ty : ResourceType} {o o' : Obj}
    (h : ∀ k ∈ ty.maintained, Assoc.entries o' k = Assoc.entries o k) (hone : namedOnce ty o = true) :
    namedOnce ty o' = true :=
  namedOnce_iff.mpr fun k hk => by
    rw [h k hk]
    exact namedOnce_iff.mp hone k hk

theorem buildTs_unclaimed (env : Env) (h : namedOnce .ts o = true) :
    buildTs env req (unclaimed .ts o) = buildTs env req o := by
  have hreset : ∀ ts : Obj, (∀ k ∈ ResourceType.ts.maintained, Assoc.entries ts k = Assoc.entries o k) →
      resetTs (unclaimed .ts ts) = resetTs ts := fun ts hts => resetTs_unclaimed (namedOnce_congr hts h)
  unfold buildTs
  simp only [@orAdd_unclaimed .ts .cr (by decide), validateTs_unclaimed, createPeriod_unclaimed,
    @orAdd_unclaimed .ts .mdd (by decide), @orAdd_unclaimed .ts .mbs (by decide),
    @orAdd_unclaimed .ts .mni (by decide), @orAdd_unclaimed .ts .mdn (by decide),
    @orAdd_unclaimed .ts .mdt (by decide), @get_unclaimed .ts .mdd (by decide),
    @get_unclaimed .ts .mdt (by decide), @get_unclaimed .ts .mdn (by decide),
    checkTsCnf_unclaimed]
  rw [hreset]
  intro k hk
  have hout : k ∉ [Attr.cr, .pei, .peid, .mdd, .mbs, .mni, .mdn, .mdt] := by
    revert k
    decide
  simp only [List.mem_cons, List.not_mem_nil, or_false, not_or] at hout
  rw [entries_orAdd (Ne.symm hout.2.2.2.2.2.2.2), entries_orAdd (Ne.symm hout.2.2.2.2.2.2.1),
    entries_orAdd (Ne.symm hout.2.2.2.2.2.1), entries_orAdd (Ne.symm hout.2.2.2.2.1), entries_orAdd (Ne.symm hout.2.2.2.1),
    entries_createPeriod hout.2.1 hout.2.2.1, entries_orAdd (Ne.symm hout.1)]

end

/-! ## Requests -/

/-- The handlers of CREATE and UPDATE for these types. -/
inductive Handler where
  | createCnt | updateCnt | createCin | createGrp | updateGrp | createTs | updateTs | createTsi | createSub | updateSub
deriving DecidableEq

namespace Handler

/-- The type of the resource. -/
def ty : Handler → ResourceType
  | createCnt | updateCnt => .cnt
  | createCin => .cin
  | createGrp | updateGrp => .grp
  | createTs | updateTs => .ts
  | createTsi => .tsi
  | createSub | updateSub => .sub

/-- The handler at work: `n` is the parent of the new resource, or the target. -/
def run (w : World) (req : Req) (s : Server) (n : RTNode) : Handler → Option (Server × Resp)
  | createCnt => s.createCnt w.ts.toEnv req n
  | updateCnt => s.updateCnt w.ts.toEnv w.kept req n
  | createCin => s.createCin w.ts.toEnv req n
  | createGrp => s.createGrp w.grp req n
  | updateGrp => s.updateGrp w.grp w.kept req n
  | createTs => s.createTs w.ts.toEnv req n
  | updateTs => (s.updateTs w.ts.toEnv w.kept req n).bind Outcome.answer
  | createTsi => (s.createTsi w.ts req n).bind Outcome.answer
  | createSub => s.createSub w.ts.toEnv w.verify req n
  | updateSub => s.updateSub w.ts.toEnv w.verify req n

/-- The request with the keys the CSE maintains removed from its body. -/
def cleaned (h : Handler) (req : Req) : Req := { req with pc := unclaimed h.ty req.pc }

/-- The body leaves alone what this handler takes from it: the two that delete the keys first delete one
entry of each. -/
def leavesAlone (h : Handler) (body : Obj) : Bool :=
  match h with
  | createTs | createTsi => namedOnce h.ty body
  | updateTs | createSub | updateSub => true
  | _ => h.ty.maintained.all fun k => !body.has k

/-- The keys a create request of this kind adds its own values to, after those of the body. -/
def appended : Handler → List Attr
  | createCnt => [.st, .cni, .cbs]
  | createCin => [.cs, .st]
  | createGrp => [.cnm]
  | _ => []

/-- The answer of success. -/
def success : Handler → Rsc
  | updateCnt | updateGrp | updateTs | updateSub => .updated
  | _ => .created

/-- Without the keys the same request is answered alike and leads to the maintained values of `s'`. -/
def Immune (h : Handler) (w : World) (req : Req) (s : Server) (n : RTNode) (s' : Server) (r : Resp) : Prop :=
  ∃ s₂, h.run w (h.cleaned req) s n = some (s₂, r) ∧ s'.maintained = s₂.maintained

end Handler

section

variable {w : World} {req : Req} {s s' : Server} {n : RTNode} {r : Resp}

theorem unclaimed_eq_self {ty : ResourceType} {body : Obj} (h : ∀ k ∈ ty.maintained, body.has k = false) :
    unclaimed ty body = body :=
  Assoc.filterKeys_eq_self fun k hk => by
    have := h k (ResourceType.free_eq_false.mp hk)
    unfold Obj.has Assoc.has at this
    exact Option.not_isSome_iff_eq_none.mp (by simp [this])

/-- The object of a new time series is the same. -/
theorem createTs_cleaned (env : Env) (h : namedOnce .ts req.pc = true) :
    s.createTs env { req with pc := unclaimed .ts req.pc } n = s.createTs env req n := by
  unfold Server.createTs
  split
  · rfl
  · unfold unclaimed
    rw [addGeneralAttribute_filterKeys (by decide)]
    cases hgen : addGeneralAttribute env req.pc n.obj .ts s.riCount with
    | none => rfl
    | some x =>
      obtain ⟨ts, c⟩ := x
      have hone : namedOnce .ts ts = true :=
        namedOnce_congr (fun k hk => entries_addGeneralAttribute (by revert k; decide) hgen) h
      dsimp only [Option.map_some, Option.bind_eq_bind, Option.bind_some]
      rw [show Assoc.filterKeys ResourceType.ts.free ts = unclaimed .ts ts from rfl,
        show buildTs env { req with pc := Assoc.filterKeys ResourceType.ts.free req.pc } (unclaimed .ts ts) =
          buildTs env req (unclaimed .ts ts) from rfl, buildTs_unclaimed env hone]

theorem createTsi_cleaned (env : TsEnv) (h : namedOnce .tsi req.pc = true) :
    s.createTsi env { req with pc := unclaimed .tsi req.pc } n = s.createTsi env req n := by
  have hdel : Obj.del (unclaimed .tsi req.pc) .cs = req.pc.del .cs := by
    have : unclaimed .tsi req.pc = req.pc.del .cs := by
      refine (Assoc.foldl_del_eq_filterKeys [.cs] (m := req.pc) fun k hk => ?_).symm
      exact namedOnce_iff.mp h k hk
    rw [this]
    exact this ▸ del_of_filterKeys (by decide) _
  unfold Server.createTsi
  dsimp only
  rw [hdel, show validateMandatoryAttrs .tsi (unclaimed .tsi req.pc) .create = _ from
    validateMandatoryAttrs_filterKeys (by decide) _ _]

/-- A time series that is updated is given none of the keys. -/
theorem updateTs_cleaned (env : Env) (kept : Json → List Json)
    (h : (s.updateTs env kept req n).bind Outcome.answer = some (s', r)) (hr : r.accepted = true) :
    s.updateTs env kept { req with pc := unclaimed .ts req.pc } n = s.updateTs env kept req n := by
  have hno : ∀ k ∈ ResourceType.ts.maintained, req.pc.has k = false := by
    intro k hk
    by_contra hhas
    unfold Server.updateTs at h
    have hk' : k ∈ [Attr.mdc, .mdlt, .cni, .cbs] := by
      clear hhas
      revert k
      decide
    rw [if_pos (List.any_eq_true.mpr ⟨k, hk', by simpa using hhas⟩)] at h
    cases h
    cases hr
  rw [unclaimed_eq_self hno]

/-- A request that leaves the keys alone is the request without them, as far as the handler goes. -/
theorem Handler.run_cleaned {h : Handler} (hrun : h.run w req s n = some (s', r)) (hr : r.accepted = true)
    (hok : h.leavesAlone req.pc = true) : h.run w (h.cleaned req) s n = some (s', r) := by
  have hself : (∀ k ∈ h.ty.maintained, req.pc.has k = false) → h.run w (h.cleaned req) s n = some (s', r) := by
    intro hno
    unfold Handler.cleaned
    rw [unclaimed_eq_self hno]
    exact hrun
  have hnone : h.ty.maintained.all (fun k => !req.pc.has k) = true → ∀ k ∈ h.ty.maintained, req.pc.has k = false :=
    fun hall k hk => by simpa using List.all_eq_true.mp hall k hk
  cases h with
  | createCnt => exact hself (hnone hok)
  | updateCnt => exact hself (hnone hok)
  | createCin => exact hself (hnone hok)
  | createGrp => exact hself (hnone hok)
  | updateGrp => exact hself (hnone hok)
  | createTs => exact (createTs_cleaned w.ts.toEnv hok).trans hrun
  | createTsi => exact (congrArg (Option.bind · Outcome.answer) (createTsi_cleaned w.ts hok)).trans hrun
  | updateTs => exact (congrArg (Option.bind · Outcome.answer) (updateTs_cleaned w.ts.toEnv w.kept hrun hr)).trans hrun
  | createSub => exact hself fun k hk => absurd hk (List.not_mem_nil)
  | updateSub => exact hself fun k hk => absurd hk (List.not_mem_nil)

theorem entries_unclaimed {ty : ResourceType} {k : Attr} (hk : k ∈ ty.maintained) (body : Obj) :
    Assoc.entries (unclaimed ty body) k = [] := by
  unfold unclaimed
  rw [Assoc.entries_filterKeys, ResourceType.free_eq_false.mpr hk]
  rfl

/-- Entries of the body before those of the CSE show. -/
theorem not_has_of_entries {ty : ResourceType} {k : Attr} {body : Obj} {l l' : List (Attr × Json)} (hk : k ∈ ty.maintained)
    (hl : l.length = l'.length) (h : Assoc.entries body k ++ l = Assoc.entries (unclaimed ty body) k ++ l') :
    body.has k = false := by
  rw [entries_unclaimed hk, List.nil_append] at h
  have hnil : Assoc.entries body k = [] := by
    have := congrArg List.length h
    rw [List.length_append, hl] at this
    exact List.length_eq_zero_iff.mp (by omega)
  unfold Obj.has Assoc.has
  rw [Assoc.get_eq_head, hnil]
  rfl

/-- How many entries the CSE adds: a size only where there is content of type string. -/
def entriesAdded (body : Obj) (k : Attr) : Nat := if k = .cs then (sizeEntry body).length else 1

theorem entriesAdded_cleaned (h : Handler) (hty : h.ty.free .con = true) (k : Attr) :
    entriesAdded (h.cleaned req).pc k = entriesAdded req.pc k := by
  unfold entriesAdded sizeEntry Handler.cleaned
  dsimp only
  rw [Obj.str_congr (get_unclaimed hty req.pc)]

/-- The new resource of a request that adds its values to those of the body. -/
theorem Handler.run_made {h : Handler} (hs : s.Sane) (hl : s.LatestAreCins) (hn : n ∈ s.tree.nodes) {j : Nat}
    (hj : Server.cinPlace w.ts.toEnv { s with riCount := (s.riCount + 1) % 10000 } n = some j ∨ h ≠ createCin)
    (hrun : h.run w req s n = some (s', r)) (hr : r.rsc = .created) (happ : h.appended ≠ []) :
    ∃ o, s'.MadeAt (if h = createCin then j else s.nextId) h.ty o ∧
      ∀ k ∈ h.appended, ∃ l, l.length = entriesAdded req.pc k ∧ Assoc.entries o k = Assoc.entries req.pc k ++ l := by
  cases h with
  | createCnt =>
    obtain ⟨o, ho, hent⟩ := createCnt_made hs hn hrun hr
    refine ⟨o, ho, fun k hk => ⟨_, (if_neg ?_).symm, hent k hk⟩⟩
    rintro rfl
    exact absurd hk (by decide)
  | createCin =>
    obtain ⟨i, o, st, hi, ho, -, hcs, hst⟩ := createCin_made hs hl hrun hr
    obtain rfl : i = j := Option.some.inj (hi.symm.trans (hj.resolve_right (absurd rfl)))
    refine ⟨o, ho, fun k hk => ?_⟩
    rcases List.mem_pair.mp hk with rfl | rfl
    · exact ⟨_, rfl, hcs⟩
    · exact ⟨_, rfl, hst⟩
  | createGrp =>
    obtain ⟨o, cnm, ho, hent⟩ := createGrp_made hs hrun hr
    refine ⟨o, ho, fun k hk => ?_⟩
    obtain rfl := List.mem_singleton.mp hk
    exact ⟨_, rfl, hent⟩
  | updateCnt => exact absurd rfl happ
  | updateGrp => exact absurd rfl happ
  | createTs => exact absurd rfl happ
  | updateTs => exact absurd rfl happ
  | createTsi => exact absurd rfl happ
  | createSub => exact absurd rfl happ
  | updateSub => exact absurd rfl happ

/-- The CSE's own values are what they would be without the keys whenever the body leaves the keys alone, and for
a new container, instance or group only where the body has none of those it adds itself. -/
theorem immune_of_leavesAlone {h : Handler} (hrun : h.run w req s n = some (s', r)) (hr : r.rsc = h.success) :
    (h.leavesAlone req.pc = true → h.Immune w req s n s' r) ∧
      (s.Sane → s.LatestAreCins → n ∈ s.tree.nodes → h.Immune w req s n s' r →
        ∀ k ∈ h.appended, req.pc.has k = false) := by
  constructor
  · intro hok
    have hacc : r.accepted = true := by
      unfold Resp.accepted
      rw [hr]
      cases h <;> rfl
    exact ⟨s', Handler.run_cleaned hrun hacc hok, rfl⟩
  · rintro hs hl hn ⟨s₂, hrun₂, heq⟩ k hk
    have hcr : r.rsc = .created := by
      rw [hr]
      cases h <;> first | rfl | exact absurd hk List.not_mem_nil
    have hplace : ∃ j, Server.cinPlace w.ts.toEnv { s with riCount := (s.riCount + 1) % 10000 } n = some j ∨
        h ≠ .createCin := by
      by_cases he : h = .createCin
      · subst he
        obtain ⟨j, -, -, hj, -⟩ := createCin_made hs hl hrun hcr
        exact ⟨j, .inl hj⟩
      · exact ⟨0, .inr he⟩
    obtain ⟨j, hj⟩ := hplace
    obtain ⟨o, ho, hent⟩ := Handler.run_made hs hl hn hj hrun hcr (List.ne_nil_of_mem hk)
    obtain ⟨o₂, ho₂, hent₂⟩ := Handler.run_made hs hl hn hj hrun₂ hcr (List.ne_nil_of_mem hk)
    obtain ⟨l, hlen, he⟩ := hent k hk
    obtain ⟨l₂, hlen₂, he₂⟩ := hent₂ k hk
    have hty : k ∈ h.ty.maintained ∧ h.ty.free .con = true := by
      clear hent hent₂ he he₂ hlen hlen₂
      revert k
      cases h <;> decide
    refine not_has_of_entries hty.1 (hlen.trans ((entriesAdded_cleaned h hty.2 k).symm.trans hlen₂.symm)) ?_
    rw [← he, ho.entries_eq ho₂ heq hty.1, he₂]
    rfl

end

/-! ## Two requests -/

/-- A world without other CSEs. -/
def quietWorld : World where
  ts := { firstDay with parseTime := fun _ => 0, isoTime := fun _ => [], armed := fun _ => false }
  remote := fun _ => .error .badRequest
  depth := 1
  kept := fun _ => []
  verify := fun _ => 2000

/-- The administrator creates a container below the CSEBase, with this body. -/
def makeCnt (body : Obj) (s : Server) (n : RTNode) : Option (Server × Resp) :=
  Handler.createCnt.run quietWorld (adminReq .create "TinyIoT" .cnt body) s n

/-- The first day's tree with a container at address 2. -/
def newContainer : Option Server := do
  let s ← boot firstDay
  let cb ← s.node? 0
  let (s, _) ← makeCnt [(.rn, .str "c".toList)] s cb
  return s

/-- The administrator creates a time series in the container, with a count of missing data of its own. -/
def countedSeries : Req :=
  adminReq .create "TinyIoT/c" .ts [(.rn, .str "t".toList), (.pei, .int 1000), (.mdc, .int 7)]

theorem immune_of_leavesAlone_counted : ∃ s n s' r, newContainer = some s ∧ s.node? 2 = some n ∧
    Handler.createTs.run quietWorld countedSeries s n = some (s', r) ∧ r.rsc = .created ∧
    Handler.createTs.Immune quietWorld countedSeries s n s' r := by
  have hrun : newContainer.any (fun s => (s.node? 2).any fun n =>
      (Handler.createTs.run quietWorld countedSeries s n).any fun x => x.2.rsc = .created) = true := by decide +kernel
  obtain ⟨s, hs, h⟩ := (Option.any_eq_true _ _).mp hrun
  obtain ⟨n, hn, h⟩ := (Option.any_eq_true _ _).mp h
  obtain ⟨⟨s', r⟩, hx, hr⟩ := (Option.any_eq_true _ _).mp h
  have hr := of_decide_eq_true hr
  exact ⟨s, n, s', r, hs, hn, hx, hr, (immune_of_leavesAlone hx hr).1 (by decide)⟩

/-- A count in the body stays in front of the count of the CSE. -/
theorem not_immune_client_count : ¬ ∀ (w : World) (h : Handler) (req : Req) (s : Server) (n : RTNode) (s' : Server) (r : Resp),
    Booted s → n ∈ s.tree.nodes → h.run w req s n = some (s', r) → r.rsc = h.success → h.Immune w req s n s' r := by
  intro himm
  have hrun : (boot firstDay).any (fun s => s.tree.nodes.head?.any fun n =>
      (makeCnt [(.rn, .str "c".toList), (.cni, .int 7)] s n).any fun x => x.2.rsc = .created &&
        (makeCnt [(.rn, .str "c".toList)] s n).all fun y =>
          x.1.maintained.1.map (fun v => v.2.2.map List.length) ≠ y.1.maintained.1.map fun v => v.2.2.map List.length) =
      true := by decide +kernel
  obtain ⟨s, hb, h⟩ := (Option.any_eq_true _ _).mp hrun
  obtain ⟨n, hn, h⟩ := (Option.any_eq_true _ _).mp h
  obtain ⟨⟨s', r⟩, hx, h⟩ := (Option.any_eq_true _ _).mp h
  rw [Bool.and_eq_true] at h
  obtain ⟨s₂, hrun₂, heq⟩ := himm quietWorld .createCnt _ s n s' r ⟨firstDay, hb⟩ (List.mem_of_mem_head? hn) hx
    (of_decide_eq_true h.1)
  have hall := h.2
  rw [show makeCnt [(.rn, .str "c".toList)] s n = some (s₂, r) from hrun₂, Option.all_some, decide_eq_true_eq] at hall
  exact hall (by rw [heq])

end TinyIoT
