/-
Runs of requests about flexContainers: which requests keep the object of a flexContainer and its column in step
with the custom attributes asked for, and one that does not.
-/
import TinyIoT.FlexContainer.Attributes
import TinyIoT.Server.Boot

namespace TinyIoT

/-! ## Runs -/

/-- A request about a flexContainer, with the name its object is wrapped in. -/
inductive FcntRequest where
  | create (shortname : Option CStr) (req : Req)
  | update (shortname : Option CStr) (req : Req)

/-- A request of a run. -/
def Server.serveFcnt (e : FcntEnv) : FcntRequest → Server → Option (Server × Resp)
  | .create sn req => requestCreateFcnt e sn req
  | .update sn req => requestUpdateFcnt e sn req

/-- A server, with the custom attributes that were asked of the flexContainer at each address. -/
structure FcntRun where
  server : Server
  asked : Nat → Obj

/-- What is asked after a request that was carried out: the custom attributes of a new flexContainer, or those
there were with the ones of the body in place of them, where null takes one away. -/
def FcntRequest.asks (c : FcntRun) (rsc : Rsc) : FcntRequest → Nat → Obj
  | create _ req => if rsc = .created then Function.update c.asked c.server.nextId (customAttributes req.pc) else c.asked
  | update _ req =>
    if rsc = .updated then (c.server.named req.target).elim c.asked fun n =>
      Function.update c.asked n.id ((c.asked n.id).updateResource (customAttributes req.pc))
    else c.asked

def FcntRun.after (c : FcntRun) (r : FcntRequest) (x : Server × Resp) : FcntRun := ⟨x.1, r.asks c x.2.rsc⟩

/-- One request of a run. -/
def FcntStep (c c' : FcntRun) : Prop := ∃ e r x, c.server.serveFcnt e r = some x ∧ c' = c.after r x

/-- A run starts where there are no flexContainers yet. -/
def FcntRun.Fresh (c : FcntRun) : Prop :=
  c.server.NodupIds ∧ (∀ n ∈ c.server.tree.nodes, n.id < c.server.nextId) ∧ ∀ n ∈ c.server.tree.nodes, n.ty ≠ .fcnt

instance (c : FcntRun) : Decidable c.Fresh :=
  inferInstanceAs (Decidable (c.server.NodupIds ∧ (∀ n ∈ c.server.tree.nodes, _) ∧ ∀ n ∈ c.server.tree.nodes, _))

/-- Every flexContainer has the custom attributes asked for, in its object and in the database. -/
def FcntRun.CustomInStep (c : FcntRun) : Prop :=
  ∀ n ∈ c.server.tree.nodes, n.ty = .fcnt → ∃ ri, n.ri = some ri ∧ ∀ k,
    Assoc.entries (c.server.db.dbGetFcntCustomAttributes ri) k = Assoc.entries (customAttributes n.obj) k ∧
      Assoc.entries (customAttributes n.obj) k = Assoc.entries (c.asked n.id) k

/-- The requests that keep the two in step, by the state they meet. They look up nothing expired. -/
def FcntRequest.Complete (e : FcntEnv) (s : Server) : FcntRequest → Prop
  | create _ req => s.Settled e.now req.target ∧ s.AcpiSettled e.now (req.pc.get .acpi) ∧
      Unused s (resourceIdentifier .fcnt e.now s.riCount).1 ∧ Storable e.backend (customAttributes req.pc)
  | update _ req => s.Settled e.now req.target ∧ s.AcpiSettled e.now (req.pc.get .acpi) ∧
      ∀ n ∈ s.named req.target, n.ty = .fcnt →
        Whole e.backend (customAttributes n.obj) (customAttributes req.pc) ∧ (4 ≤ req.rvi → SparesFcnts s n)

instance (e : FcntEnv) (s : Server) : (r : FcntRequest) → Decidable (r.Complete e s)
  | .create _ req => inferInstanceAs (Decidable (s.Settled e.now req.target ∧ s.AcpiSettled e.now _ ∧ _))
  | .update _ req => inferInstanceAs (Decidable (s.Settled e.now req.target ∧ s.AcpiSettled e.now _ ∧
      ∀ n ∈ s.named req.target, _ → _))

/-- One request of a run that meets the condition. -/
def CompleteStep (c c' : FcntRun) : Prop :=
  ∃ e r x, r.Complete e c.server ∧ c.server.serveFcnt e r = some x ∧ c' = c.after r x

section Run

variable {c c' : FcntRun} {e : FcntEnv} {x : Server × Resp}

theorem attrInv_fresh (h : c.Fresh) : AttrInv c.server c.asked :=
  ⟨h.1, h.2.1, fun n hn hty => absurd hty (h.2.2 n hn), fun n hn _ _ hty => absurd hty (h.2.2 n hn)⟩

theorem attrInv_create {sn : Option CStr} {req : Req} (h : AttrInv c.server c.asked)
    (hr : FcntRequest.Complete e c.server (.create sn req)) (he : c.server.serveFcnt e (.create sn req) = some x) :
    AttrInv x.1 (FcntRequest.asks c x.2.rsc (.create sn req)) := by
  obtain ⟨hset, hacpi, hun, hst⟩ := hr
  have hkeep : ∀ s', AttrInv s' c.asked → s'.nextId = c.server.nextId →
      AttrInv s' (FcntRequest.asks c x.2.rsc (.create sn req)) := by
    intro s' h' hn
    simp only [FcntRequest.asks]
    split
    · exact hn ▸ h'.forget _
    · exact h'
  rcases Server.onTarget_some hset he with hs | ⟨p, -, -, he⟩
  · rw [hs]
    exact hkeep _ h rfl
  · rcases Server.createOnem2mResource_some he with hs | ⟨-, -, -, s₁, hc, hs'⟩
    · rw [hs]
      exact hkeep _ h rfl
    · have h₁ : AttrInv s₁ (FcntRequest.asks c x.2.rsc (.create sn req)) := by
        rcases h.createFcnt hun hst hacpi hc with ⟨hn, h₁⟩ | ⟨hrsc, h₁⟩
        · exact hkeep s₁ h₁ hn
        · simp only [FcntRequest.asks, if_pos hrsc]
          exact h₁
      rcases hs' with hs' | hs'
      · rw [hs']
        exact h₁
      · rw [hs']
        exact (h₁.incrementParentStatetag _ _).inv

theorem attrInv_update {sn : Option CStr} {req : Req} (h : AttrInv c.server c.asked)
    (hr : FcntRequest.Complete e c.server (.update sn req)) (he : c.server.serveFcnt e (.update sn req) = some x) :
    AttrInv x.1 (FcntRequest.asks c x.2.rsc (.update sn req)) := by
  obtain ⟨hset, hacpi, hcond⟩ := hr
  have hkeep : x.2.rsc ≠ .updated → AttrInv x.1 c.asked → AttrInv x.1 (FcntRequest.asks c x.2.rsc (.update sn req)) := by
    intro hne h'
    simp only [FcntRequest.asks, if_neg hne]
    exact h'
  have hsame : ∀ r : Resp, r.rsc ≠ .updated → some (c.server, r) = some x →
      AttrInv x.1 (FcntRequest.asks c x.2.rsc (.update sn req)) := by
    rintro r hne ⟨⟩
    exact hkeep hne h
  obtain ⟨s', r⟩ := x
  unfold Server.serveFcnt Server.requestUpdateFcnt at he
  rcases Server.onTarget_answer hset he with ⟨hs, hr⟩ | ⟨n, hn, hnamed, he⟩
  · subst hs
    refine hkeep (fun hu => ?_) h
    rcases hr with rfl | rfl <;> cases hu
  · split at he
    · exact hsame _ (by decide) he
    · split at he
      · exact hsame _ (by decide) he
      · rename_i hty
        rw [not_not] at hty
        split at he
        · exact hsame _ (by decide) he
        · split at he
          · exact hsame _ (by decide) he
          · obtain ⟨hw, hs⟩ := hcond n hnamed hty
            rcases h.updateFcnt hn hty hw hs hacpi he with ⟨hne, h'⟩ | ⟨hrsc, h'⟩
            · exact hkeep hne h'
            · simp only [FcntRequest.asks, if_pos hrsc, hnamed, Option.elim_some]
              exact h'

theorem attrInv_step (h : AttrInv c.server c.asked) (hs : CompleteStep c c') : AttrInv c'.server c'.asked := by
  obtain ⟨e, r, x, hr, he, rfl⟩ := hs
  cases r with
  | create sn req => exact attrInv_create h hr he
  | update sn req => exact attrInv_update h hr he

theorem AttrInv.customInStep (h : AttrInv c.server c.asked) : c.CustomInStep := by
  intro n hn hty
  obtain ⟨ri, hc⟩ := h.carried n hn hty
  exact ⟨ri, Obj.str_of_get hc.named, fun k => ⟨(hc.column.reads k).trans (hc.object k).symm, hc.object k⟩⟩

end Run

/-- In every run whose requests meet the condition, the object of a flexContainer and its column hold the custom
attributes asked for, in every state reached. -/
theorem customInStep_of_complete_run {c : FcntRun} (h : Reach FcntRun.Fresh CompleteStep c) : c.CustomInStep :=
  (h.inv (I := fun c => AttrInv c.server c.asked) (fun _ => attrInv_fresh) fun _ _ => attrInv_step).customInStep

/-! ## Two runs -/

/-- A definition of the registry. -/
def keepWarm : SdtDef where
  type := "cod:keeWm".toList
  cnd := some "org.onem2m.common.moduleclass.keepWarm".toList
  attributes := some [{ sname := some "dgt".toList, type := some "timestamp".toList, car := some "01".toList },
    { sname := some "time".toList, type := some "integer".toList, car := some "01".toList },
    { sname := some "tarTe".toList, type := some "float".toList, car := some "01".toList }]

/-- The first day, on PostgreSQL. -/
def warmDay : FcntEnv where
  toEnv := firstDay
  sdt := [keepWarm]
  backend := .postgresql
  print := fun _ => "printed".toList
  later := fun _ => "20240102T000000".toList
  kept := fun _ => []

def warmTime : Attr := .other "time".toList

def warmTarget : Attr := .other "tarTe".toList

/-- A flexContainer with two custom attributes. -/
def createWarm : FcntRequest :=
  .create none { adminReq .create "TinyIoT" .fcnt [(.rn, .str "w".toList),
    (.cnd, .str "org.onem2m.common.moduleclass.keepWarm".toList), (warmTime, .int 3), (warmTarget, .int 40)] with rvi := 4 }

def updateWarm (pc : Obj) : FcntRequest := .update none { adminReq .update "TinyIoT/w" .fcnt pc with rvi := 4 }

theorem customInStep_of_complete_run_warm : ∃ c, Reach FcntRun.Fresh CompleteStep c ∧
    (c.server.tree.nodes.any fun n => n.ty = .fcnt && (customAttributes n.obj).length = 2) = true ∧ c.CustomInStep := by
  have hrun : ((boot firstDay).bind fun s => [createWarm, updateWarm [(warmTime, .int 5), (warmTarget, .int 41)]].foldlM
      (fun (c : FcntRun) r => if r.Complete warmDay c.server then (c.server.serveFcnt warmDay r).map (c.after r) else none)
      ⟨s, fun _ => []⟩).any (fun c => c.server.tree.nodes.any fun n => n.ty = .fcnt && (customAttributes n.obj).length = 2) =
      true := by decide +kernel
  have hfresh : (boot firstDay).all (fun s => decide (FcntRun.Fresh ⟨s, fun _ => []⟩)) = true := by decide +kernel
  obtain ⟨c, hc, hn⟩ := (Option.any_eq_true _ _).mp hrun
  obtain ⟨s₀, hb, hc⟩ := Option.bind_eq_some_iff.mp hc
  rw [hb] at hfresh
  have hr : Reach FcntRun.Fresh CompleteStep c := by
    refine Reach.of_foldlM ?_ _ (.start (of_decide_eq_true hfresh)) hc
    intro c r c' hc'
    split at hc'
    · rename_i hok
      obtain ⟨x, he, rfl⟩ := Option.map_eq_some_iff.mp hc'
      exact ⟨warmDay, r, x, hok, he, rfl⟩
    · cases hc'
  exact ⟨c, hr, hn, customInStep_of_complete_run hr⟩

/-- An update of one custom attribute takes the other one out of the column. -/
theorem not_customInStep_after_partial : ¬ ∀ c, Reach FcntRun.Fresh FcntStep c → c.CustomInStep := by
  intro h
  have hrun : ((boot firstDay).bind fun s => [createWarm, updateWarm [(warmTime, .int 5)]].foldlM
      (fun (c : FcntRun) r => (c.server.serveFcnt warmDay r).map (c.after r)) ⟨s, fun _ => []⟩).any
      (fun c => c.server.tree.nodes.any fun n => n.ty = .fcnt && n.ri.all fun ri =>
        (customAttributes n.obj).has warmTarget && !(c.server.db.dbGetFcntCustomAttributes ri).has warmTarget) =
      true := by decide +kernel
  have hfresh : (boot firstDay).all (fun s => decide (FcntRun.Fresh ⟨s, fun _ => []⟩)) = true := by decide +kernel
  obtain ⟨c, hc, hn⟩ := (Option.any_eq_true _ _).mp hrun
  obtain ⟨s₀, hb, hc⟩ := Option.bind_eq_some_iff.mp hc
  rw [hb] at hfresh
  have hr : Reach FcntRun.Fresh FcntStep c := by
    refine Reach.of_foldlM ?_ _ (.start (of_decide_eq_true hfresh)) hc
    intro c r c' hc'
    obtain ⟨x, he, rfl⟩ := Option.map_eq_some_iff.mp hc'
    exact ⟨warmDay, r, x, he, rfl⟩
  obtain ⟨n, hmem, hn⟩ := List.any_eq_true.mp hn
  simp only [Bool.and_eq_true, decide_eq_true_eq] at hn
  obtain ⟨hty, hn⟩ := hn
  obtain ⟨ri, hri, hsame⟩ := h c hr n hmem hty
  rw [hri, Option.all_some, Bool.and_eq_true, Bool.not_eq_true'] at hn
  have hget := Assoc.get_congr (hsame warmTarget).1
  have hhas : (c.server.db.dbGetFcntCustomAttributes ri).has warmTarget = (customAttributes n.obj).has warmTarget :=
    congrArg Option.isSome hget
  rw [hn.1, hn.2] at hhas
  cases hhas

end TinyIoT
