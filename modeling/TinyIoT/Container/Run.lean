/-
Runs of requests on containers and their instances: a container's `cni` and `cbs` against the rows of
its content instances, in every state such a run reaches.
-/
import TinyIoT.Container.Handlers
import TinyIoT.Server.Boot
import TinyIoT.Server.Dispatch
import TinyIoT.Lib.Reach

namespace TinyIoT

/-- A request of such a run. -/
inductive CntRequest where
  | createCnt (req : Req)
  | createCin (req : Req)
  | updateCnt (kept : Json → List Json) (req : Req)
  | deleteCin (req : Req)

def CntRequest.req : CntRequest → Req
  | createCnt req => req
  | createCin req => req
  | updateCnt _ req => req
  | deleteCin req => req

namespace Server

def serve (env : Env) : CntRequest → Server → Option (Server × Resp)
  | .createCnt req, s => s.requestCreateCnt env req
  | .createCin req, s => s.requestCreateCin env req
  | .updateCnt kept req, s => s.requestUpdateCnt env kept req
  | .deleteCin req, s => s.requestDelete env.now req

/-- The stored content instances of a container. -/
def storedCins (s : Server) (c : RTNode) : List Row := s.db.filter fun r => r.ty = .cin && r.pi = c.ri

/-- Every container counts its stored instances and their bytes. -/
def Balanced (s : Server) : Prop :=
  ∀ c ∈ s.tree.nodes, c.ty = .cnt →
    (c.obj.get .cni).map Json.valueint = some ((s.storedCins c).length : Int) ∧
    (c.obj.get .cbs).map Json.valueint = some ((s.storedCins c).map Row.size).sum

instance (s : Server) : Decidable s.Balanced := inferInstanceAs (Decidable (∀ c ∈ s.tree.nodes, _))

end Server

/-- The body carries none of the counters, and a DELETE is of a content instance. -/
def CntRequest.admissible (s : Server) (r : CntRequest) : Bool :=
  [Attr.cni, .cbs, .cs].all (fun k => !r.req.pc.has k) &&
    match r with
    | deleteCin req => (s.named req.target).all fun n => n.ty = .cin
    | _ => true

/-- One request of a run. -/
def CntStep (s s' : Server) : Prop :=
  ∃ env r resp, CntRequest.admissible s r = true ∧ s.serve env r = some (s', resp)

/-! ## The condition -/

instance (db : Db) (n : RTNode) (pi : Option CStr) : Decidable (StoredIn db n pi) :=
  inferInstanceAs (Decidable ((∃ r ∈ db, _) ∧ ∀ k ∈ db.keys .cin, _ → _))

instance (db : Db) (ri : CStr) : Decidable (CleanRows db ri) :=
  inferInstanceAs (Decidable (∀ k ∈ db.keys .cin, _ → ∀ k' ∈ db.keys .cin, _ → _))

instance (env : Env) (s : Server) (c : RTNode) : Decidable (CntInv.FreshCache env s c) :=
  inferInstanceAs (Decidable (∀ mia ∈ c.obj.get .mia, _ → ∀ n ∈ (s.children c.id).roots, _ → _ → _))

instance (o : Obj) : Decidable (MniNonneg o) := inferInstanceAs (Decidable (∀ e ∈ o, _ → _))

namespace CntRequest

/-- The requests that keep the books, by the state they meet: no instance is counted out that is not
stored (a cached latest instance may be gone from the rows already), a full container has an instance
to give up, no DELETE statement meets a stranger, no counter leaves the range of `int`, and no lookup meets an
expired resource (it would be removed, and an instance not counted out): not the target, nor what `acpi` names,
nor a group of a deleted instance, which is in none. -/
def Regular (env : Env) (s : Server) : CntRequest → Prop
  | createCnt req => s.Settled env.now req.target ∧ Placed env s req .cnt ∧ s.AcpiSettled env.now (req.pc.get .acpi)
  | createCin req => s.Settled env.now req.target ∧ Placed env s req .cin ∧
      ∀ c ∈ s.named req.target, c.ty = .cnt → limit c.obj .mni defaultMaxNrInstances ≠ 0 ∧
        CntInv.FreshCache env s c ∧ ∀ ri ∈ c.ri, CleanRows s.db ri ∧ s.db.count .cin ri + 1 ≤ intMax ∧
          ∀ con ∈ req.pc.str .con, s.db.total .cin ri + con.length ≤ intMax
  | updateCnt _ req => s.Settled env.now req.target ∧ s.AcpiSettled env.now (req.pc.get .acpi) ∧
      ∀ c ∈ s.named req.target, c.ty = .cnt → MniNonneg c.obj ∧ MniNonneg req.pc ∧ ∀ ri ∈ c.ri, CleanRows s.db ri
  | deleteCin req => s.Settled env.now req.target ∧
      ∀ n ∈ s.named req.target, n.memberOf = [] ∧ ∃ c ∈ s.tree.nodes, c.ty = .cnt ∧
        ((s.resolve req.target).parent s).treeId = some c.id ∧ StoredIn s.db n c.ri

instance (env : Env) (s : Server) : (r : CntRequest) → Decidable (r.Regular env s)
  | createCnt req => inferInstanceAs (Decidable (s.Settled env.now req.target ∧ Placed env s req .cnt ∧ _))
  | createCin req => inferInstanceAs (Decidable (s.Settled env.now req.target ∧ _ ∧ ∀ c ∈ s.named req.target, _ → _))
  | updateCnt _ req =>
    inferInstanceAs (Decidable (s.Settled env.now req.target ∧ _ ∧ ∀ c ∈ s.named req.target, _ → _))
  | deleteCin req => inferInstanceAs (Decidable (s.Settled env.now req.target ∧ ∀ n ∈ s.named req.target, _ ∧ _))

end CntRequest

/-- One request of a run that meets the condition. -/
def RegularStep (s s' : Server) : Prop :=
  ∃ env r resp, CntRequest.admissible s r = true ∧ r.Regular env s ∧ s.serve env r = some (s', resp)

/-! ## The start -/

theorem cntInv_boot {s : Server} (h : Booted s) : CntInv .none s := by
  obtain ⟨env, h⟩ := h
  obtain ⟨cb, acp, r, q, ht, -, hdb, hid, hc1, hc2, hc3, -, hc4, -, -, -, ha1, ha2, ha3, ha4, -, -, hr1, hr2, hq1, hq2⟩ :=
    boot_some h
  have hnodes : ∀ n ∈ s.tree.nodes, n = cb ∨ n = acp := by
    rw [ht]
    intro n hn
    simpa [Forest.nodes] using hn
  have hcells : ∀ n c, (n, c) ∈ s.tree.cells → (n = cb ∧ c = .node acp .nil .nil) ∨ (n = acp ∧ c = .nil) := by
    rw [ht]
    intro n c hc
    simpa [Forest.cells] using hc
  have hty : ∀ n ∈ s.tree.nodes, n.ty ≠ .cin ∧ n.ty ≠ .cnt ∧ n.ty ≠ .cnta := by
    intro n hn
    rcases hnodes n hn with rfl | rfl
    · rw [hc2]; decide
    · rw [ha2]; decide
  have hkeys : s.db.keys .cin = [] := by
    unfold Db.keys
    rw [hdb]
    simp [hr1, hq1]
  refine ⟨⟨?_, ?_, ?_, ?_, ?_, ?_, ?_⟩, ⟨?_, ?_, ?_, ?_, ?_, ?_, ?_⟩, ?_⟩
  · unfold Server.NodupIds
    rw [ht]
    simp [Forest.nodes, hc1, ha1]
  · intro n hn
    rcases hnodes n hn with rfl | rfl <;> omega
  · exact fun n c hc hn => absurd hn (hty n (Forest.mem_nodes_of_cell hc)).1
  · intro n c hc
    rcases hcells n c hc with ⟨-, rfl⟩ | ⟨-, rfl⟩
    · simp [Forest.roots, ha2]
    · simp [Forest.roots]
  · intro n hn
    refine ⟨fun h => absurd h (hty n hn).1, fun h => ?_⟩
    rcases hnodes n hn with rfl | rfl
    · rw [hc3] at h; exact absurd h (by decide)
    · rw [ha3] at h; exact absurd h (by decide)
  · intro n hn
    rcases hnodes n hn with rfl | rfl
    · exact hc4
    · exact ha4
  · exact fun n hn => (hty n hn).2.2
  · simp [hkeys]
  · simp [hkeys]
  · simp [hkeys]
  · simp [hkeys]
  · exact fun n hn _ _ hn' _ _ => absurd hn' (hty n hn).2.1
  · exact fun n hn hn' => absurd hn' (hty n hn).2.1
  · exact fun n hn hn' => absurd hn' (hty n hn).2.1
  · rw [hdb]
    intro x hx
    simp only [List.mem_cons, List.not_mem_nil, or_false] at hx
    rcases hx with rfl | rfl
    · exact ⟨by rw [hr1]; decide, by rw [hr1]; decide, hr2⟩
    · exact ⟨by rw [hq1]; decide, by rw [hq1]; decide, hq2⟩

/-! ## One step and whole runs -/

section Step

variable {s s' : Server} {env : Env} {resp : Resp}

theorem no_counters {r : CntRequest} (h : CntRequest.admissible s r = true) :
    ∀ k ∈ [Attr.cni, .cbs, .cs], r.req.pc.get k = none := by
  unfold CntRequest.admissible at h
  rw [Bool.and_eq_true, List.all_eq_true] at h
  intro k hk
  exact Assoc.has_eq_false.mp (by simpa using h.1 k hk)

theorem cntInv_createCnt {req : Req} (h : CntInv .none s) (ha : CntRequest.admissible s (.createCnt req) = true)
    (hr : CntRequest.Regular env s (.createCnt req)) (he : s.serve env (.createCnt req) = some (s', resp)) :
    CntInv .none s' := by
  obtain ⟨hset, ⟨hplace, hnew⟩, hacpi⟩ := hr
  rcases Server.onTarget_some hset he with rfl | ⟨p, hp, -, he⟩
  · exact h
  · rcases Server.createOnem2mResource_some he with rfl | ⟨-, hchild, -, s₁, hc, hs'⟩
    · exact h
    · have hcin : p.ty ≠ .cin := by
        intro hcin
        rw [hcin] at hchild
        cases hchild
      have hbody := no_counters ha
      have h₁ := h.createCnt hp hcin (fun k hk => Assoc.has_eq_false.mp (hplace k hk)) (hbody .cni (by decide))
        (hbody .cbs (by decide)) hnew hacpi hc
      rcases hs' with rfl | rfl
      · exact h₁
      · exact h₁.incrementParentStatetag _ _

theorem cntInv_createCin {req : Req} (h : CntInv .none s) (ha : CntRequest.admissible s (.createCin req) = true)
    (hr : CntRequest.Regular env s (.createCin req)) (he : s.serve env (.createCin req) = some (s', resp)) :
    CntInv .none s' := by
  obtain ⟨hset, ⟨hplace, hnew⟩, hcond⟩ := hr
  rcases Server.onTarget_some hset he with rfl | ⟨p, hp, hpn, he⟩
  · exact h
  · rcases Server.createOnem2mResource_some he with rfl | ⟨-, hchild, -, s₁, hc, hs'⟩
    · exact h
    · have hty : p.ty = .cnt := by
        have hann := h.shape.original p hp
        revert hchild hann
        cases p.ty <;> decide
      obtain ⟨ri, -, hri, -⟩ := h.counters_of hp hty
      obtain ⟨hmni, hfresh, hrest⟩ := hcond p hpn hty
      obtain ⟨hclean, hcount, htotal⟩ := hrest ri hri
      have hbody := no_counters ha
      have h₁ := h.createCin hp hty hri (fun k hk => Assoc.has_eq_false.mp (hplace k hk)) (hbody .cs (by decide)) hnew
        hfresh hclean hmni hcount htotal hc
      rcases hs' with rfl | rfl
      · exact h₁
      · exact h₁.incrementParentStatetag _ _

theorem cntInv_updateCnt {kept : Json → List Json} {req : Req} (h : CntInv .none s)
    (ha : CntRequest.admissible s (.updateCnt kept req) = true)
    (hr : CntRequest.Regular env s (.updateCnt kept req))
    (he : s.serve env (.updateCnt kept req) = some (s', resp)) : CntInv .none s' := by
  obtain ⟨hset, hacpi, hcond⟩ := hr
  unfold Server.serve Server.requestUpdateCnt at he
  rcases Server.onTarget_some hset he with rfl | ⟨c, hc, hcn, he⟩
  · exact h
  · split at he
    · cases he; exact h
    · rename_i hty
      rw [not_not] at hty
      split at he
      · cases he; exact h
      · split at he
        · cases he; exact h
        · obtain ⟨ri, -, hri, -⟩ := h.counters_of hc hty
          obtain ⟨hmni, hmni', hclean⟩ := hcond c hcn hty
          exact h.updateCnt hc hty hri (no_counters ha) (hclean ri hri) hmni hmni' hacpi he

theorem cntInv_deleteCin {req : Req} (h : CntInv .none s) (ha : CntRequest.admissible s (.deleteCin req) = true)
    (hr : CntRequest.Regular env s (.deleteCin req)) (he : s.serve env (.deleteCin req) = some (s', resp)) :
    CntInv .none s' := by
  obtain ⟨hset, hcond⟩ := hr
  unfold Server.serve Server.requestDelete at he
  rcases Server.findRtnode_settled hset with hf | ⟨n, hn, hf⟩
  · simp only [hf] at he
    cases he
    exact h
  · simp only [hf] at he
    have hp : (s.resolve req.target).deref s = some n := hn
    rw [hp] at he
    obtain ⟨hmember, c, hc, hty, hpar, hst⟩ := hcond n hn
    have hcin : n.ty = .cin := by
      unfold CntRequest.admissible at ha
      rw [Bool.and_eq_true] at ha
      simpa [hn] using ha.2
    exact h.deleteCin hp (Server.resolve_ok _) hcin (Ptr.eq_inTree hpar) hc hty hst hmember he

/-- One step keeps the invariant. -/
theorem cntInv_step (h : CntInv .none s) (hs : RegularStep s s') : CntInv .none s' := by
  obtain ⟨env, r, resp, ha, hr, he⟩ := hs
  cases r with
  | createCnt req => exact cntInv_createCnt h ha hr he
  | createCin req => exact cntInv_createCin h ha hr he
  | updateCnt kept req => exact cntInv_updateCnt h ha hr he
  | deleteCin req => exact cntInv_deleteCin h ha hr he

theorem balanced_of_inv (h : CntInv .none s) : s.Balanced := by
  intro c hc hty
  obtain ⟨ri, -, hri, -, hcni, hcbs, hc0, hc1, ht0, ht1⟩ := h.counters_of hc hty
  have hrows : s.storedCins c = s.db.instances .cin ri := by
    unfold Server.storedCins Db.instances
    rw [hri]
  have hmin : intMin ≤ 0 := by decide
  rw [hrows, hcni, hcbs]
  refine ⟨?_, ?_⟩
  · rw [Option.map_some, Json.valueint_int (by omega) hc1, Db.count_eq]
  · rw [Option.map_some, Json.valueint_int (by omega) ht1, Db.total_eq]

end Step

/-- In every run whose requests meet the condition, every container counts its stored instances and
their bytes in every state reached. -/
theorem balanced_of_regular_run {s : Server} (h : Reach Booted RegularStep s) : s.Balanced :=
  balanced_of_inv (h.inv (I := CntInv .none) (fun _ => cntInv_boot) fun _ _ => cntInv_step)

/-! ## Two runs -/

/-- One container with one instance. -/
def oneInstance : List CntRequest :=
  [.createCnt (adminReq .create "TinyIoT" .cnt [(.rn, .str "c".toList)]),
   .createCin (adminReq .create "TinyIoT/c" .cin [(.con, .str "abc".toList)])]

theorem balanced_of_regular_run_one : ∃ s, Reach Booted RegularStep s ∧ s.db.count .cin "3-20240101T0000000001".toList = 1 ∧
    s.Balanced := by
  have hrun : ((boot firstDay).bind (oneInstance.foldlM fun s r =>
      if CntRequest.admissible s r = true ∧ r.Regular firstDay s then (s.serve firstDay r).map (·.1) else none)).any
      (fun s => decide (s.db.count .cin "3-20240101T0000000001".toList = 1)) = true := by decide +kernel
  obtain ⟨s, hs, hc⟩ := (Option.any_eq_true _ _).mp hrun
  obtain ⟨s₀, hb, hs⟩ := Option.bind_eq_some_iff.mp hs
  have hr : Reach Booted RegularStep s := by
    refine Reach.of_foldlM ?_ oneInstance (.start ⟨firstDay, hb⟩) hs
    intro s r s' hs'
    split at hs'
    · rename_i hok
      obtain ⟨⟨s₁, resp⟩, he, rfl⟩ := Option.map_eq_some_iff.mp hs'
      exact ⟨firstDay, r, resp, hok.1, hok.2, he⟩
    · cases hs'
  exact ⟨s, hr, of_decide_eq_true hc, balanced_of_regular_run hr⟩

/-- The oldest instance is deleted, and then the latest one, which is the same. -/
def staleLatest : List CntRequest :=
  oneInstance ++ [.deleteCin (adminReq .delete "TinyIoT/c/ol" .cin []),
    .deleteCin (adminReq .delete "TinyIoT/c/la" .cin [])]

/-- The instance is counted out twice. -/
theorem not_balanced_stale_latest : ¬ ∀ s, Reach Booted CntStep s → s.Balanced := by
  intro h
  have hrun : ((boot firstDay).bind (staleLatest.foldlM fun s r =>
      if CntRequest.admissible s r = true then (s.serve firstDay r).map (·.1) else none)).any
      (fun s => !decide s.Balanced) = true := by decide +kernel
  obtain ⟨s, hs, hc⟩ := (Option.any_eq_true _ _).mp hrun
  obtain ⟨s₀, hb, hs⟩ := Option.bind_eq_some_iff.mp hs
  have hr : Reach Booted CntStep s := by
    refine Reach.of_foldlM ?_ staleLatest (.start ⟨firstDay, hb⟩) hs
    intro s r s' hs'
    split at hs'
    · rename_i hok
      obtain ⟨⟨s₁, resp⟩, he, rfl⟩ := Option.map_eq_some_iff.mp hs'
      exact ⟨firstDay, r, resp, hok, he⟩
    · cases hs'
  simp [h s hr] at hc

end TinyIoT
