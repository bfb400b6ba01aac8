/-
`create_cin` with the outcomes of its database calls (`db_begin_tx`, `db_store_resource`, `db_commit_tx`,
`db_rollback_tx`). The rows are given back by the database; what `update_cnt_cin` did to the container in
memory is not, so a request that fails after it leaves the state tag moved on. Every error path ends with
`free_rtnode(cin_rtnode)` and `cJSON_Delete(root)`, which both delete the instance's object.
-/
import TinyIoT.Container.Run
import TinyIoT.Database.Transactions

namespace TinyIoT

/-! ## The calls with their outcomes -/

/-- The outcomes of the database calls of one `create_cin`. -/
structure CinCalls where
  begun : Bool := true
  stored : Bool := true
  committed : SqlOutcome := .ok
  rolledBack : SqlOutcome := .ok

/-- The rows the connection reads after a transaction that changed `before` to `db` was to be given up. -/
def SqlOutcome.givenUp (before db : Db) : SqlOutcome → Db
  | .ok => before
  | .failed lost => if lost then before else db

namespace Server

/-- How a call of `create_cin` ends: the server, the committed rows and the answer. -/
structure CinEnd where
  server : Server
  committed : Db
  resp : Resp
  /-- The object of the instance is deleted with its node and again with `root`. -/
  freedTwice : Bool := false

/-- `create_cin` with the outcomes of its database calls. -/
def createCinTx (d : CinCalls) (env : Env) (req : Req) (s : Server) (parent : RTNode) : Option CinEnd := do
  let before := s.db
  let (cin, n) ← addGeneralAttribute env req.pc parent.obj .cin s.riCount
  let s := { s with riCount := n }
  let st ← parent.obj.get .st
  match buildCin env req parent.obj st.valueint cin with
  | .error r => return { server := s, committed := before, resp := r }
  | .ok cin =>
    let node ← createRtnode s.nextId cin .cin
    let failed (s : Server) (msg : String) : CinEnd :=
      { server := s, committed := before, resp := handleError .internalServerError msg, freedTwice := true }
    if d.begun then
      let s ← s.addCnt env (.inTree parent.id) node.obj
      match if d.stored then s.db.dbStoreResource node.obj (parent.uri ++ '/' :: node.rn) else none with
      | none => return failed { s with db := d.rolledBack.givenUp before s.db } "DB store fail"
      | some db =>
        -- no rollback where the COMMIT fails
        if d.committed ≠ .ok then return failed { s with db := d.committed.givenUp before db } "DB commit fail"
        let s := { s with db := db, nextId := s.nextId + 1 }
        return { server := s.cacheLatest parent node, committed := db, resp := done .created }
    else return failed s "DB begin fail"

/-- The node `create_cin` makes of the instance, where the request is not refused. -/
def builtCin (env : Env) (req : Req) (s : Server) (parent : RTNode) : Option RTNode := do
  let (cin, _) ← addGeneralAttribute env req.pc parent.obj .cin s.riCount
  let st ← parent.obj.get .st
  let cin ← (buildCin env req parent.obj st.valueint cin).toOption
  createRtnode s.nextId cin .cin

/-- How a call of `create_cin` ends. -/
theorem createCinTx_cases {d : CinCalls} {env : Env} {req : Req} {s : Server} {parent : RTNode} {e : CinEnd}
    (he : s.createCinTx d env req parent = some e) :
    ((s.builtCin env req parent = none ∧ e.freedTwice = false ∨
        (s.builtCin env req parent).isSome = true ∧ d.begun = false ∧ e.freedTwice = true) ∧
      e.server.tree = s.tree ∧ e.committed = s.db) ∨
    ∃ node, s.builtCin env req parent = some node ∧ d.begun = true ∧
      ((d.stored = true ∧ d.committed = .ok ∧ (storedRow node.obj (parent.uri ++ '/' :: node.rn)).isSome = true ∧
          e.resp.rsc = .created ∧ e.freedTwice = false) ∨
        (¬ (d.stored = true ∧ d.committed = .ok ∧ (storedRow node.obj (parent.uri ++ '/' :: node.rn)).isSome = true) ∧
          e.resp.rsc ≠ .created ∧ e.freedTwice = true ∧
          ∃ s₀ s₁ : Server, s₀.tree = s.tree ∧ s₀.addCnt env (.inTree parent.id) node.obj = some s₁ ∧
            e.server.tree = s₁.tree)) := by
  unfold createCinTx at he
  simp only [Option.bind_eq_bind] at he
  obtain ⟨⟨cin, n⟩, hgen, he⟩ := Option.bind_eq_some_iff.mp he
  obtain ⟨st, hst, he⟩ := Option.bind_eq_some_iff.mp he
  have hbuilt : s.builtCin env req parent =
      (buildCin env req parent.obj st.valueint cin).toOption.bind fun cin => createRtnode s.nextId cin .cin := by
    simp only [builtCin, hgen, hst, Option.bind_eq_bind, Option.bind_some]
  split at he
  · rename_i r' hr
    cases he
    rw [hr] at hbuilt
    exact .inl ⟨.inl ⟨hbuilt, rfl⟩, rfl, rfl⟩
  · rename_i cin' hcin
    obtain ⟨node, hnode, he⟩ := Option.bind_eq_some_iff.mp he
    rw [hcin] at hbuilt
    have hbuilt : s.builtCin env req parent = some node := hbuilt.trans hnode
    split at he
    · rename_i hbegun
      obtain ⟨s₁, hadd, he⟩ := Option.bind_eq_some_iff.mp he
      refine .inr ⟨node, hbuilt, hbegun, ?_⟩
      split at he
      · rename_i hstore
        cases he
        refine .inr ⟨?_, by simp [handleError], rfl, { s with riCount := n }, s₁, rfl, hadd, rfl⟩
        rintro ⟨h₁, -, h₂⟩
        rw [if_pos h₁, dbStoreResource_eq, Option.map_eq_none_iff] at hstore
        rw [hstore] at h₂
        cases h₂
      · rename_i db' hstore
        have hstored : d.stored = true ∧ (storedRow node.obj (parent.uri ++ '/' :: node.rn)).isSome = true := by
          split at hstore
          · rename_i h₁
            rw [dbStoreResource_eq] at hstore
            obtain ⟨q, hq, -⟩ := Option.map_eq_some_iff.mp hstore
            exact ⟨h₁, by rw [hq]; rfl⟩
          · cases hstore
        split at he
        · rename_i hcommit
          cases he
          exact .inr ⟨fun h => hcommit h.2.1, by simp [handleError], rfl, { s with riCount := n }, s₁, rfl, hadd, rfl⟩
        · rename_i hcommit
          rw [not_not] at hcommit
          cases he
          exact .inl ⟨hstored.1, hcommit, hstored.2, rfl, rfl⟩
    · rename_i hbegun
      cases he
      exact .inl ⟨.inr ⟨by rw [hbuilt]; rfl, Bool.eq_false_iff.mpr hbegun, rfl⟩, rfl, rfl⟩

end Server

/-! ## The state tag moves -/

/-- `w` is the number `v` moved on by `k`, as an `int`. -/
structure Advanced (k : Nat) (v w : Json) : Prop where
  num : ∃ b, w = .num b
  by_k : (4294967296 : Int) ∣ w.valueint - (v.valueint + k)

namespace Advanced

variable {k l : Nat} {u v w : Json}

theorem refl (h : ∃ b, v = .num b) : Advanced 0 v v := ⟨h, by simp⟩

theorem trans (h₁ : Advanced k u v) (h₂ : Advanced l v w) : Advanced (k + l) u w := by
  refine ⟨h₂.num, ?_⟩
  have hsum : w.valueint - (u.valueint + ((k + l : Nat) : Int)) =
      (w.valueint - (v.valueint + l)) + (v.valueint - (u.valueint + k)) := by
    push_cast
    omega
  rw [hsum]
  exact Int.dvd_add h₂.by_k h₁.by_k

theorem ne (h : Advanced k v w) (h0 : 0 < k) (h1 : k < 4294967296) : w ≠ v := by
  rintro rfl
  have := h.by_k
  omega

/-- `cJSON_SetIntValue` with the value one up. -/
theorem succ (h : ∃ b, v = .num b) : Advanced 1 v (v.setIntValue (cInt (v.valueint + 1))) := by
  obtain ⟨b, rfl⟩ := h
  refine ⟨⟨_, rfl⟩, ?_⟩
  show (4294967296 : Int) ∣ (Json.int (cInt ((Json.num b).valueint + 1))).valueint - _
  have hlo : intMin ≤ cInt ((Json.num b).valueint + 1) := Int.le_bmod (by decide)
  have hhi : cInt ((Json.num b).valueint + 1) ≤ intMax := Int.le_of_lt_add_one (Int.bmod_lt (by decide))
  rw [Json.valueint_int hlo hhi]
  unfold cInt
  have := Int.bmod_emod (x := (Json.num b).valueint + 1) (m := 4294967296)
  omega

end Advanced

/-- The state tag of `o` is a number and that of `o'` is `k` further. -/
def TagAdvanced (k : Nat) (o o' : Obj) : Prop :=
  ∀ v, o.get .st = some v → (∃ b, v = .num b) → ∃ w, o'.get .st = some w ∧ Advanced k v w

theorem TagAdvanced.trans {k l : Nat} {o o₁ o₂ : Obj} (h₁ : TagAdvanced k o o₁) (h₂ : TagAdvanced l o₁ o₂) :
    TagAdvanced (k + l) o o₂ := by
  intro v hv hnum
  obtain ⟨w, hw, hk⟩ := h₁ v hv hnum
  obtain ⟨x, hx, hl⟩ := h₂ w hw hk.num
  exact ⟨x, hx, hk.trans hl⟩

theorem TagAdvanced.zero {o o' : Obj} (h : o'.get .st = o.get .st) : TagAdvanced 0 o o' :=
  fun v hv hnum => ⟨v, h.trans hv, .refl hnum⟩

theorem tagAdvanced_bumpCnt {cnt cin o : Obj} {sign : Int} (h : bumpCnt cnt cin sign = some o) : TagAdvanced 1 cnt o := by
  unfold bumpCnt at h
  simp only [Option.bind_eq_bind] at h
  obtain ⟨cni, -, h⟩ := Option.bind_eq_some_iff.mp h
  obtain ⟨cbs, -, h⟩ := Option.bind_eq_some_iff.mp h
  obtain ⟨st, hst, h⟩ := Option.bind_eq_some_iff.mp h
  obtain ⟨cs, -, h⟩ := Option.bind_eq_some_iff.mp h
  cases h
  intro v hv hnum
  cases hst.symm.trans hv
  refine ⟨_, Assoc.get_set_self ((Assoc.get_set_ne (by decide)).trans ((Assoc.get_set_ne (by decide)).trans hst)), .succ hnum⟩

theorem tagAdvanced_deleteCinUnder {cnt o : Obj} {db db' : Db} (h : deleteCinUnderCntMniMbs cnt db = some (o, db')) :
    ∃ k ≤ 1, TagAdvanced k cnt o := by
  unfold deleteCinUnderCntMniMbs at h
  simp only [Option.bind_eq_bind] at h
  obtain ⟨cni, -, h⟩ := Option.bind_eq_some_iff.mp h
  obtain ⟨cbs, -, h⟩ := Option.bind_eq_some_iff.mp h
  split at h
  · cases h
    exact ⟨0, by omega, .zero rfl⟩
  · obtain ⟨ri, -, h⟩ := Option.bind_eq_some_iff.mp h
    obtain ⟨x, -, h⟩ := Option.bind_eq_some_iff.mp h
    obtain ⟨st, hst, h⟩ := Option.bind_eq_some_iff.mp h
    cases h
    refine ⟨1, le_rfl, fun v hv hnum => ?_⟩
    have hsame : Obj.get ((cnt.set .cni (cni.assignInt x.2.1)).set .cbs (cbs.assignInt x.2.2)) .st = cnt.get .st :=
      (Assoc.get_set_ne (by decide)).trans (Assoc.get_set_ne (by decide))
    cases hst.symm.trans (hsame.trans hv)
    exact ⟨_, Assoc.get_set_self hst, .succ hnum⟩

namespace Server

variable {s s' : Server} {i : Nat} {n n' : RTNode} {env : Env}

theorem node?_congr (h : s'.tree = s.tree) (i : Nat) : s'.node? i = s.node? i := by
  unfold node?
  rw [h]

theorem node?_persist (s : Server) (i : Nat) (o : Obj) :
    (s.persist (.inTree i) o).node? i = (s.node? i).map fun n => { n with obj := o } := by
  rw [node?_congr (persist_tree s i o), setObj, node?_modifyNode (f := fun n => { n with obj := o }) fun _ => rfl]
  cases h : s.node? i with
  | none => rfl
  | some n => simp [(node?_mem h).2]

theorem NodupIds.persist (hs : s.NodupIds) (i : Nat) (o : Obj) : (s.persist (.inTree i) o).NodupIds :=
  hs.modify (f := fun n => { n with obj := o }) (fun _ _ _ => rfl) (persist_tree s i o)

theorem NodupIds.freeRtnode (hs : s.NodupIds) (j : Nat) : (s.freeRtnode j).NodupIds :=
  hs.sublist ((Forest.nodes_remove_sublist _ _).map _)

/-- A node that is left is the one there was. -/
theorem node?_freeRtnode (hs : s.NodupIds) {j : Nat} (h : (s.freeRtnode j).node? i = some n) : s.node? i = some n := by
  obtain ⟨hmem, rfl⟩ := node?_mem h
  exact node?_eq hs ((Forest.nodes_remove_sublist _ _).subset hmem)

/-- The tag moves by one with every instance that expires. -/
theorem tagAdvanced_dropExpired {l : List RTNode} (hs : s.NodupIds) (he : dropExpired (.inTree i) l s = some s')
    (hn : s'.node? i = some n') : ∃ n, s.node? i = some n ∧ TagAdvanced l.length n.obj n'.obj := by
  induction l generalizing s with
  | nil =>
    cases he
    exact ⟨n', hn, .zero rfl⟩
  | cons m l ih =>
    obtain ⟨s₁, hdrop, he⟩ := Option.bind_eq_some_iff.mp he
    unfold dropCnt at hdrop
    have hd : (Ptr.inTree i).deref s = s.node? i := rfl
    rw [hd] at hdrop
    have hback : ∀ {s₂ : Server}, s₂.NodupIds → dropExpired (.inTree i) l
        ({ s₂ with db := s₂.db.dbDeleteOnem2mResource m }.freeRtnode m.id) = some s' →
        ∃ n, s₂.node? i = some n ∧ TagAdvanced l.length n.obj n'.obj := by
      intro s₂ hs₂ h₂
      have hs₃ : Server.NodupIds { s₂ with db := s₂.db.dbDeleteOnem2mResource m } := hs₂
      obtain ⟨n₂, hn₂, htag⟩ := ih (hs₃.freeRtnode m.id) h₂
      exact ⟨n₂, node?_freeRtnode hs₃ hn₂, htag⟩
    cases hnode : s.node? i with
    | none =>
      rw [hnode] at hdrop
      cases hdrop
      obtain ⟨n₂, hn₂, -⟩ := hback hs he
      rw [hnode] at hn₂
      cases hn₂
    | some n =>
      rw [hnode] at hdrop
      obtain ⟨o, ho, rfl⟩ := Option.map_eq_some_iff.mp hdrop
      obtain ⟨n₂, hn₂, htag⟩ := hback (hs.persist i o) he
      rw [node?_persist, hnode] at hn₂
      cases hn₂
      refine ⟨n, rfl, ?_⟩
      rw [List.length_cons, Nat.add_comm]
      exact (tagAdvanced_bumpCnt ho).trans htag

/-- `update_cnt_cin` with sign 1 moves the state tag of its container, by 130 at most. -/
theorem tagAdvanced_addCnt {cin : Obj} (hs : s.NodupIds) (hn : s.node? i = some n)
    (he : s.addCnt env (.inTree i) cin = some s') :
    ∃ n' k, s'.node? i = some n' ∧ 0 < k ∧ k ≤ 130 ∧ TagAdvanced k n.obj n'.obj := by
  unfold addCnt at he
  have hd : ∀ s : Server, (Ptr.inTree i).deref s = s.node? i := fun _ => rfl
  simp only [Option.bind_eq_bind, hd, hn, Option.bind_some] at he
  obtain ⟨s₁, hexp, he⟩ := Option.bind_eq_some_iff.mp he
  obtain ⟨n₁, hn₁, he⟩ := Option.bind_eq_some_iff.mp he
  obtain ⟨o, ho, he⟩ := Option.bind_eq_some_iff.mp he
  obtain ⟨⟨o', db⟩, hdel, he⟩ := Option.bind_eq_some_iff.mp he
  cases he
  have hexpired : ∃ k ≤ 128, TagAdvanced k n.obj n₁.obj := by
    unfold expireByMia at hexp
    have hstay : some s = some s₁ → ∃ k ≤ 128, TagAdvanced k n.obj n₁.obj := by
      rintro ⟨⟩
      cases hn.symm.trans hn₁
      exact ⟨0, by omega, .zero rfl⟩
    split at hexp
    · exact hstay hexp
    · split at hexp
      · obtain ⟨l, hl, hexp⟩ := Option.bind_eq_some_iff.mp hexp
        obtain ⟨m, hm, htag⟩ := tagAdvanced_dropExpired hs hexp hn₁
        cases hn.symm.trans hm
        refine ⟨l.length, ?_, htag⟩
        unfold expiredCins at hl
        rw [Option.ite_none_right_eq_some] at hl
        cases hl.2
        exact List.length_take_le _ _
      · exact hstay hexp
  obtain ⟨k, hk, htag⟩ := hexpired
  obtain ⟨l, hl, htag'⟩ := tagAdvanced_deleteCinUnder hdel
  refine ⟨{ n₁ with obj := o' }, k + 1 + l, ?_, by omega, by omega, (htag.trans (tagAdvanced_bumpCnt ho)).trans htag'⟩
  rw [node?_persist]
  exact congrArg (Option.map _) hn₁

end Server

/-! ## What a failed request leaves -/

/-- The container's counters, its children and the committed rows are as they were. -/
structure Untouched (s s' : Server) (parent : RTNode) (committed : Db) : Prop where
  counters : ∀ k ∈ [Attr.cni, .cbs, .st], (s'.node? parent.id).map (fun n => n.obj.get k) = some (parent.obj.get k)
  children : s'.children parent.id = s.children parent.id
  rows : committed = s.db

/-- The request is refused before the database is used, or every call succeeds and the instance can be stored. -/
def CinCalls.Whole (d : CinCalls) (env : Env) (req : Req) (s : Server) (parent : RTNode) : Prop :=
  ∀ node ∈ s.builtCin env req parent, d.begun = true ∧ d.stored = true ∧ d.committed = .ok ∧
    (storedRow node.obj (parent.uri ++ '/' :: node.rn)).isSome = true

/-- A `create_cin` frees nothing twice and, where it does not answer CREATED, leaves its container and the committed
rows as they were, if and only if it is refused before the database is used or no call of it fails. What is left
where a call fails after the BEGIN, too: the state tag of the container has moved. -/
theorem untouched_iff_whole {d : CinCalls} {env : Env} {req : Req} {s : Server} {parent : RTNode} {e : Server.CinEnd}
    (hs : s.NodupIds) (hp : parent ∈ s.tree.nodes) (hst : ∃ b, parent.obj.get .st = some (.num b))
    (he : s.createCinTx d env req parent = some e) :
    ((e.freedTwice = false ∧ (e.resp.rsc ≠ .created → Untouched s e.server parent e.committed)) ↔
      d.Whole env req s parent) ∧
    ((e.resp.rsc ≠ .created → Untouched s e.server parent e.committed) ↔
      d.begun = false ∨ d.Whole env req s parent) := by
  have hnode := Server.node?_eq hs hp
  rcases Server.createCinTx_cases he with ⟨hout, htree, hdb⟩ |
    ⟨node, hbuilt, hbegun, ⟨h₁, h₂, h₃, hrsc, hfreed⟩ | ⟨hfail, hrsc, hfreed, s₀, s₁, ht₀, hadd, ht₁⟩⟩
  · have hunt : Untouched s e.server parent e.committed := by
      refine ⟨fun k _ => ?_, ?_, hdb⟩
      · rw [Server.node?_congr htree, hnode]
        rfl
      · unfold Server.children
        rw [htree]
    rcases hout with ⟨hnone, hfreed⟩ | ⟨hsome, hbegun, hfreed⟩
    · have hwhole : d.Whole env req s parent := by
        intro node hm
        rw [hnone] at hm
        cases hm
      exact ⟨⟨fun _ => hwhole, fun _ => ⟨hfreed, fun _ => hunt⟩⟩, fun _ => .inr hwhole, fun _ _ => hunt⟩
    · refine ⟨⟨fun h => ?_, fun h => ?_⟩, fun _ => .inl hbegun, fun _ _ => hunt⟩
      · rw [hfreed] at h
        cases h.1
      · obtain ⟨node, hbuilt⟩ := Option.isSome_iff_exists.mp hsome
        rw [(h node hbuilt).1] at hbegun
        cases hbegun
  · have hwhole : d.Whole env req s parent := by
      intro m hm
      cases hbuilt.symm.trans hm
      exact ⟨hbegun, h₁, h₂, h₃⟩
    exact ⟨⟨fun _ => hwhole, fun _ => ⟨hfreed, fun hne => absurd hrsc hne⟩⟩, fun _ => .inr hwhole,
      fun _ hne => absurd hrsc hne⟩
  · have hpart : ¬ d.Whole env req s parent := fun h => hfail (h node hbuilt).2
    refine ⟨⟨fun h => ?_, fun h => absurd h hpart⟩, fun hunt => ?_, fun h => ?_⟩
    · rw [hfreed] at h
      cases h.1
    · -- the state tag has moved
      obtain ⟨b, hb⟩ := hst
      have hs₀ : s₀.NodupIds := by
        unfold Server.NodupIds
        rw [ht₀]
        exact hs
      obtain ⟨n', k, hn', hk0, hk1, htag⟩ :=
        Server.tagAdvanced_addCnt hs₀ ((Server.node?_congr ht₀ _).trans hnode) hadd
      obtain ⟨w, hw, hadv⟩ := htag _ hb ⟨b, rfl⟩
      have hsame := (hunt hrsc).counters .st (by simp)
      rw [Server.node?_congr ht₁, hn', hb] at hsame
      cases hw.symm.trans (Option.some.inj hsame)
      exact absurd rfl (hadv.ne hk0 (by omega))
    · rcases h with hbegin | h
      · rw [hbegun] at hbegin
        cases hbegin
      · exact absurd h hpart

/-! ## A request that is refused, and a failure -/

/-- A new server with one container. -/
def emptyContainer : Option (Server × RTNode) := do
  let s ← boot firstDay
  let (s, _) ← s.requestCreateCnt firstDay (adminReq .create "TinyIoT" .cnt [(.rn, .str "c".toList)])
  let c ← s.tree.nodes.find? fun n => n.ty = .cnt
  return (s, c)

/-- A request for an instance of it. -/
def instanceWith (o : Obj) : Req := adminReq .create "TinyIoT/c" .cin ((.con, .str "abc".toList) :: o)

/-- Its transaction, ended as `d` says. -/
def createInto (d : CinCalls) (o : Obj) (x : Server × RTNode) : Option Server.CinEnd :=
  x.1.createCinTx d firstDay (instanceWith o) x.2

/-- The container meets what the theorem asks for. -/
def startsClean (x : Server × RTNode) : Bool := decide x.1.NodupIds && (x.2.obj.get .st).any Json.isNumber

theorem startsClean_spec {x : Server × RTNode} (h : emptyContainer = some x) (hc : startsClean x = true) :
    x.1.NodupIds ∧ x.2 ∈ x.1.tree.nodes ∧ ∃ b, x.2.obj.get .st = some (.num b) := by
  simp only [startsClean, Bool.and_eq_true, decide_eq_true_eq] at hc
  unfold emptyContainer at h
  simp only [Option.bind_eq_bind] at h
  obtain ⟨s₀, -, h⟩ := Option.bind_eq_some_iff.mp h
  obtain ⟨⟨s, r⟩, -, h⟩ := Option.bind_eq_some_iff.mp h
  obtain ⟨c, hc', h⟩ := Option.bind_eq_some_iff.mp h
  cases h
  obtain ⟨j, hj, hnum⟩ := (Option.any_eq_true _ _).mp hc.2
  refine ⟨hc.1, List.mem_of_find?_eq_some hc', ?_⟩
  cases j with
  | num b => exact ⟨b, hj⟩
  | _ => cases hnum

/-- Every call succeeds, and a creator other than null is refused. -/
theorem untouched_iff_whole_both : ∃ s c e e', Server.createCinTx {} firstDay (instanceWith []) s c = some e ∧
    e.resp.rsc = .created ∧ e.freedTwice = false ∧
    Server.createCinTx { begun := false } firstDay (instanceWith [(.cr, .str "x".toList)]) s c = some e' ∧
    e'.resp.rsc = .badRequest ∧ e'.freedTwice = false ∧ Untouched s e'.server c e'.committed := by
  have hrun : (emptyContainer.bind fun x => (createInto {} [] x).bind fun e =>
      (createInto { begun := false } [(.cr, .str "x".toList)] x).map fun e' => (x, e, e')).any
      (fun z => startsClean z.1 && decide (z.2.1.resp.rsc = .created) && decide (z.2.2.resp.rsc = .badRequest) &&
        (z.1.1.builtCin firstDay (instanceWith []) z.1.2).all (fun node =>
          (storedRow node.obj (z.1.2.uri ++ '/' :: node.rn)).isSome) &&
        (z.1.1.builtCin firstDay (instanceWith [(.cr, .str "x".toList)]) z.1.2).isNone) = true := by decide +kernel
  obtain ⟨z, hrun, hz⟩ := (Option.any_eq_true _ _).mp hrun
  obtain ⟨x, hx, hrun⟩ := Option.bind_eq_some_iff.mp hrun
  obtain ⟨e, hy, hrun⟩ := Option.bind_eq_some_iff.mp hrun
  obtain ⟨e', hy', rfl⟩ := Option.map_eq_some_iff.mp hrun
  simp only [Bool.and_eq_true, decide_eq_true_eq] at hz
  obtain ⟨⟨⟨⟨hclean, hcreated⟩, hbad⟩, hstored⟩, hnone⟩ := hz
  obtain ⟨hs, hc, hst⟩ := startsClean_spec hx hclean
  have hwhole : CinCalls.Whole {} firstDay (instanceWith []) x.1 x.2 := by
    intro node hm
    rw [Option.mem_def.mp hm] at hstored
    exact ⟨rfl, rfl, rfl, hstored⟩
  have hrefused : CinCalls.Whole { begun := false } firstDay (instanceWith [(.cr, .str "x".toList)]) x.1 x.2 := by
    intro node hm
    rw [Option.mem_def.mp hm] at hnone
    cases hnone
  obtain ⟨hfreed, -⟩ := (untouched_iff_whole hs hc hst hy).1.mpr hwhole
  obtain ⟨hfreed', hunt⟩ := (untouched_iff_whole hs hc hst hy').1.mpr hrefused
  refine ⟨x.1, x.2, e, e', hy, hcreated, hfreed, hy', hbad, hfreed', hunt ?_⟩
  rw [hbad]
  decide

/-- Where the COMMIT fails the container counts an instance that there is not, and the object is freed twice. -/
theorem not_untouched_after_failed_commit : ∃ s c e, emptyContainer = some (s, c) ∧
    Server.createCinTx { committed := .failed true } firstDay (instanceWith []) s c = some e ∧
    e.resp.rsc ≠ .created ∧ ¬ Untouched s e.server c e.committed ∧ e.freedTwice = true := by
  have hrun : (emptyContainer.bind fun x => (createInto { committed := .failed true } [] x).map fun e => (x, e)).any
      (fun z => decide (z.2.resp.rsc ≠ .created) && z.2.freedTwice &&
        (z.1.2.obj.get .cni).any (fun j => j.valueint = 0) &&
        (z.2.server.node? z.1.2.id).any (fun n => (n.obj.get .cni).any fun j => j.valueint = 1)) = true := by
    decide +kernel
  obtain ⟨z, hrun, hz⟩ := (Option.any_eq_true _ _).mp hrun
  obtain ⟨x, hx, hrun⟩ := Option.bind_eq_some_iff.mp hrun
  obtain ⟨e, hy, rfl⟩ := Option.map_eq_some_iff.mp hrun
  simp only [Bool.and_eq_true, decide_eq_true_eq] at hz
  obtain ⟨⟨⟨hrsc, hfreed⟩, hzero⟩, hone⟩ := hz
  refine ⟨x.1, x.2, e, hx, hy, hrsc, fun hunt => ?_, hfreed⟩
  have hsame := hunt.counters .cni (by simp)
  obtain ⟨n, hn, hone⟩ := (Option.any_eq_true _ _).mp hone
  obtain ⟨j, hj, hone⟩ := (Option.any_eq_true _ _).mp hone
  obtain ⟨l, hl, hzero⟩ := (Option.any_eq_true _ _).mp hzero
  simp only [decide_eq_true_eq] at hone hzero
  rw [hn, Option.map_some, hj, hl] at hsame
  cases hsame
  omega

end TinyIoT
