/-
What `create_sub` and `update_sub` leave of the relation between event types, content type and parent of
a subscription. The validation sees the body alone, the default of `nct` is filled in after it, and the
parent is looked at on creation only.
-/
import TinyIoT.Resource.Subscription
import TinyIoT.Resource.Built
import TinyIoT.Server.Boot
import TinyIoT.Server.Spared
import TinyIoT.Lib.Reach

namespace TinyIoT

/-- The subscription can be served: missing data is reported under a time series, as a time series
notification and with a number to count against, and the content type is allowed for every event type. -/
def Servable (parent : ResourceType) (o : Obj) : Prop :=
  ∀ j ∈ netItems (o.get .enc),
    (j.valueint = netMissing → parent = .ts ∧ (o.get .nct).map Json.valueint = some nctTimeSeries ∧
      hasMdNum (o.get .enc) = true) ∧
    ∃ n ∈ o.get .nct, nctAllows j.valueint n.valueint = true

instance (parent : ResourceType) (o : Obj) : Decidable (Servable parent o) :=
  inferInstanceAs (Decidable (∀ j ∈ netItems (o.get .enc), _ ∧ ∃ n ∈ o.get .nct, _))

/-- Every subscription in the tree can be served where it is. -/
def Server.SubsServable (s : Server) : Prop :=
  ∀ e ∈ s.tree.cells, ∀ m ∈ e.2.roots, m.ty = .sub → Servable e.1.ty m.obj

instance (s : Server) : Decidable s.SubsServable :=
  inferInstanceAs (Decidable (∀ e ∈ s.tree.cells, ∀ m ∈ e.2.roots, _ → _))

/-! ## What the validation says -/

theorem forM_ok {α ε : Type} {f : α → Except ε Unit} {l : List α} (h : l.forM f = .ok ()) : ∀ a ∈ l, f a = .ok () := by
  induction l with
  | nil => exact fun _ ha => by cases ha
  | cons a l ih =>
    obtain ⟨⟨⟩, h₁, h₂⟩ := bind_ok (show f a >>= (fun _ => l.forM f) = .ok () from h)
    rintro b hb
    rcases List.mem_cons.mp hb with rfl | hb
    · exact h₁
    · exact ih h₂ b hb

theorem validateSub_net {now : CStr} {s : Server} {sub : Obj} {op : Operation} (h : validateSub now s sub op = .ok ()) :
    ∀ j ∈ netItems (sub.get .enc), checkNet (sub.get .enc) (sub.get .nct) j = .ok () := by
  unfold validateSub at h
  obtain ⟨⟨⟩, -, h⟩ := bind_ok h
  obtain ⟨⟨⟩, -, h⟩ := bind_ok h
  obtain ⟨⟨⟩, h, -⟩ := bind_ok h
  exact forM_ok h

/-- An event type that passes the check together with a content type. -/
theorem checkNet_some {enc : Option Json} {n j : Json} (h : checkNet enc (some n) j = .ok ()) :
    nctAllows j.valueint n.valueint = true ∧ (j.valueint = netMissing → hasMdNum enc = true) := by
  unfold checkNet at h
  unfold nctAllows
  split at h
  · cases h
  · dsimp only at h
    split at h
    · rename_i h8
      split at h
      · cases h
      · rename_i h5
        split at h
        · cases h
        · rename_i hmd
          rw [if_pos h8]
          rw [not_not] at h5
          exact ⟨decide_eq_true h5, fun _ => by simpa using hmd⟩
    · rename_i h8
      split at h
      · cases h
      · rename_i hin
        rw [if_neg h8]
        exact ⟨decide_eq_true hin, fun he => absurd he h8⟩

/-- What the table allows for missing data is the time series notification. -/
theorem nctAllows_missing {n : Int} (h : nctAllows netMissing n = true) : n = nctTimeSeries := by
  unfold nctAllows at h
  rw [if_pos rfl] at h
  exact of_decide_eq_true h

/-- A criterion and a content type that go together. -/
theorem servable_of {parent : ResourceType} {o : Obj} {n : Json} (hn : o.get .nct = some n)
    (h : ∀ j ∈ netItems (o.get .enc), nctAllows j.valueint n.valueint = true ∧
      (j.valueint = netMissing → parent = .ts ∧ hasMdNum (o.get .enc) = true)) : Servable parent o := by
  intro j hj
  obtain ⟨hall, h8⟩ := h j hj
  refine ⟨fun he => ⟨(h8 he).1, ?_, (h8 he).2⟩, n, hn, hall⟩
  rw [he] at hall
  rw [hn, Option.map_some, nctAllows_missing hall]

/-! ## Create -/

/-- A number of an event type is a JSON number. -/
theorem isNumber_of_missing {j : Json} (h : j.valueint = netMissing) : j.isNumber = true := by
  cases j with
  | num v => rfl
  | bool b => cases b <;> cases h
  | _ => cases h

/-- What `create_sub` stores can be served, where the content type is given or the default one is allowed. -/
theorem servable_buildSub {env : Env} {req : Req} {s : Server} {parent : RTNode} {sub o : Obj}
    (h : buildSub env req s parent sub = .ok o)
    (hfit : sub.has .nct = true ∨ ∀ j ∈ netItems (sub.get .enc), nctAllows j.valueint nctAllAttributes = true) :
    Servable parent.ty o := by
  unfold buildSub at h
  split at h
  · obtain ⟨-, -, h⟩ := bind_ok h
    cases h
  · rename_i hv
    obtain ⟨⟨⟩, hpar, h⟩ := bind_ok h
    have henc : o.get .enc = sub.get .enc := by
      rw [get_assignCreator h (by decide), get_addMissing]
      simp
    have hnct : o.get .nct = (sub.get .nct).or (some (.int nctAllAttributes)) := by
      rw [get_assignCreator h (by decide), get_addMissing, if_pos rfl]
    have hts : ∀ j ∈ netItems (sub.get .enc), j.valueint = netMissing → parent.ty = .ts := by
      intro j hj h8
      by_contra hne
      unfold checkNetParent at hpar
      rw [if_pos ⟨hne, List.any_eq_true.mpr ⟨j, hj, by simp [isNumber_of_missing h8, h8]⟩⟩] at hpar
      cases hpar
    have hnet := validateSub_net hv
    rcases hn : Obj.get sub .nct with _ | n
    · -- the default is filled in after the validation
      have hdef := hfit.resolve_left (by simp [Assoc.has, show Assoc.get sub .nct = none from hn])
      have hno8 : ∀ j ∈ netItems (sub.get .enc), j.valueint ≠ netMissing := by
        intro j hj h8
        have := nctAllows_missing (h8 ▸ hdef j hj)
        exact absurd this (by decide)
      refine servable_of (n := .int nctAllAttributes) (by rw [hnct, hn]; rfl) fun j hj => ?_
      rw [henc] at hj
      exact ⟨hdef j hj, fun h8 => absurd h8 (hno8 j hj)⟩
    · refine servable_of (n := n) (by rw [hnct, hn]; rfl) fun j hj => ?_
      rw [henc] at hj ⊢
      obtain ⟨hall, hmd⟩ := checkNet_some (hn ▸ hnet j hj)
      exact ⟨hall, fun h8 => ⟨hts j hj h8, hmd h8⟩⟩

/-! ## Update -/

/-- A body may change a subscription: it names the criterion and the content type once at most; one that
comes without the other goes with what is stored, and so does a criterion set to null; a content type is taken
away from an empty criterion only; and missing data is asked for under a time series. -/
def fitsUpdate (underTs : Bool) (old body : Obj) : Bool :=
  (Assoc.entries body Attr.enc).length ≤ 1 && (Assoc.entries body Attr.nct).length ≤ 1 &&
  match (defaultEnc body).get .enc, body.get .nct with
  | none, none => true
  | none, some n => (netItems (old.get .enc)).all fun j => !n.isNull && nctAllows j.valueint n.valueint
  | some enc, none => (netItems (some enc)).all fun j =>
      (old.get .nct).any (fun n => nctAllows j.valueint n.valueint) &&
        (j.valueint ≠ netMissing || underTs && hasMdNum (some enc))
  | some enc, some n => (netItems (some enc)).all fun j => !n.isNull && (j.valueint ≠ netMissing || underTs) &&
      (!(body.get .enc).any Json.isNull || nctAllows j.valueint n.valueint)

theorem defaultEnc_get (body : Obj) : ((defaultEnc body).get .enc = body.get .enc ∧ ∀ v, body.get .enc = some v → v.isNull = false) ∨
    (body.get .enc = some .null ∧ (defaultEnc body).get .enc = some (.obj [(.net, .arr [.int 1])])) := by
  unfold defaultEnc
  split
  · rename_i h
    exact .inr ⟨h, Assoc.get_set_self h⟩
  · rename_i h
    refine .inl ⟨rfl, fun v hv => ?_⟩
    cases v <;> first | rfl | exact absurd hv h

theorem entries_defaultEnc (body : Obj) (k : Attr) :
    (Assoc.entries (defaultEnc body) k).length = (Assoc.entries body k).length ∧
      (k ≠ .enc → Assoc.entries (defaultEnc body) k = Assoc.entries body k) := by
  unfold defaultEnc
  split
  · refine ⟨?_, fun hk => Assoc.entries_set_ne (Ne.symm hk)⟩
    by_cases hk : Attr.enc = k
    · subst hk
      exact Assoc.length_entries_set _ _ _
    · exact congrArg List.length (Assoc.entries_set_ne hk)
  · exact ⟨rfl, fun _ => rfl⟩

/-- The criterion and the content type that an update leaves. -/
theorem updateSub_merged (old : Obj) (lt : CStr) {pc : Obj} (henc : (Assoc.entries pc Attr.enc).length ≤ 1)
    (hnct : (Assoc.entries pc Attr.nct).length ≤ 1) :
    (old.updateResource ((defaultEnc pc).add .lt (.str lt))).get .enc = ((defaultEnc pc).get .enc).or (old.get .enc) ∧
      ((∀ v, pc.get .nct = some v → v.isNull = false) →
        (old.updateResource ((defaultEnc pc).add .lt (.str lt))).get .nct = (pc.get .nct).or (old.get .nct)) := by
  have hentries : ∀ k, k ≠ .lt → Assoc.entries ((defaultEnc pc).add .lt (.str lt)) k = Assoc.entries (defaultEnc pc) k :=
    fun k hk => Assoc.entries_add_ne (Ne.symm hk)
  have hget : ∀ k, k ≠ .lt → ((defaultEnc pc).add .lt (.str lt)).get k = (defaultEnc pc).get k :=
    fun k hk => Assoc.get_congr (hentries k hk)
  have hvalue : ∀ (x y : Option Json), (∀ v, x = some v → v.isNull = false) →
      ((x.map fun v => if v.isNull then none else some v).getD y) = x.or y := by
    intro x y hx
    rcases x with _ | v
    · rfl
    · simp [hx v rfl]
  constructor
  · have hnn : ∀ v, (defaultEnc pc).get .enc = some v → v.isNull = false := by
      intro v hv
      rcases defaultEnc_get pc with ⟨h, hn⟩ | ⟨-, h⟩
      · exact hn v (h.symm.trans hv)
      · cases h.symm.trans hv
        rfl
    rw [Obj.get_updateResource_once (.inr fun v hv => hnn v ((hget .enc (by decide)).symm.trans hv)), hget .enc (by decide),
      hvalue _ _ hnn]
    rw [hentries .enc (by decide), (entries_defaultEnc pc .enc).1]
    exact henc
  · intro hnn
    have hsame : ((defaultEnc pc).add .lt (.str lt)).get .nct = pc.get .nct :=
      (hget .nct (by decide)).trans (Assoc.get_congr ((entries_defaultEnc pc .nct).2 (by decide)))
    rw [Obj.get_updateResource_once (.inr fun v hv => hnn v (hsame.symm.trans hv)), hsame, hvalue _ _ hnn]
    rw [hentries .nct (by decide), (entries_defaultEnc pc .nct).1]
    exact hnct

/-- An update that fits leaves a subscription that can be served. -/
theorem servable_update {parent : ResourceType} {now lt : CStr} {s : Server} {old pc : Obj} {underTs : Bool}
    (hold : Servable parent old) (hts : underTs = true → parent = .ts) (hv : validateSub now s pc .update = .ok ())
    (hfit : fitsUpdate underTs old pc = true) :
    Servable parent (old.updateResource ((defaultEnc pc).add .lt (.str lt))) := by
  unfold fitsUpdate at hfit
  simp only [Bool.and_eq_true, decide_eq_true_eq] at hfit
  obtain ⟨⟨henc, hnct⟩, hfit⟩ := hfit
  obtain ⟨hmenc, hmnct⟩ := updateSub_merged old lt henc hnct
  rcases he : Obj.get (defaultEnc pc) .enc with _ | enc
  · rw [he, Option.none_or] at hmenc
    rcases hn : Obj.get pc .nct with _ | n
    · have := hmnct fun v hv => by cases hn.symm.trans hv
      rw [hn, Option.none_or] at this
      unfold Servable
      rw [hmenc, this]
      exact hold
    · rw [he, hn] at hfit
      simp only [List.all_eq_true, Bool.and_eq_true, Bool.not_eq_true'] at hfit
      intro j hj
      rw [hmenc] at hj ⊢
      obtain ⟨hnull, hall⟩ := hfit j hj
      have := hmnct fun v hv => by cases hn.symm.trans hv; exact hnull
      rw [hn, Option.some_or] at this
      rw [this]
      refine ⟨fun h8 => ⟨((hold j hj).1 h8).1, ?_, ((hold j hj).1 h8).2.2⟩, n, rfl, hall⟩
      rw [h8] at hall
      rw [Option.map_some, nctAllows_missing hall]
  · rw [he, Option.some_or] at hmenc
    rcases hn : Obj.get pc .nct with _ | n
    · have hm := hmnct fun v hv => by cases hn.symm.trans hv
      rw [hn, Option.none_or] at hm
      rw [he, hn] at hfit
      simp only [List.all_eq_true, Bool.and_eq_true, Bool.or_eq_true, decide_eq_true_eq] at hfit
      intro j hj
      rw [hmenc] at hj ⊢
      obtain ⟨hall, h8⟩ := hfit j hj
      obtain ⟨n, hon, hall⟩ := (Option.any_eq_true _ _).mp hall
      rw [hm]
      refine ⟨fun he8 => ?_, n, hon, hall⟩
      obtain ⟨hu, hmd⟩ := h8.resolve_left fun hne => hne he8
      rw [he8] at hall
      rw [hon, Option.map_some, nctAllows_missing hall]
      exact ⟨hts hu, rfl, hmd⟩
    · rw [he, hn] at hfit
      simp only [List.all_eq_true, Bool.and_eq_true, Bool.or_eq_true, Bool.not_eq_true', decide_eq_true_eq] at hfit
      intro j hj
      rw [hmenc] at hj ⊢
      obtain ⟨⟨hnull, h8⟩, hcl⟩ := hfit j hj
      have hm := hmnct fun v hv => by cases hn.symm.trans hv; exact hnull
      rw [hn, Option.some_or] at hm
      rw [hm]
      -- both were in the body: the validation saw them together, unless the criterion was null
      have hboth : nctAllows j.valueint n.valueint = true ∧ (j.valueint = netMissing → hasMdNum (some enc) = true) := by
        rcases defaultEnc_get pc with ⟨hd, -⟩ | ⟨hd, hdef⟩
        · have hpc := hd.symm.trans he
          have := validateSub_net hv j (by rw [hpc]; exact hj)
          rw [hpc, hn] at this
          exact checkNet_some this
        · refine ⟨hcl.resolve_left (by rw [hd]; simp [Json.isNull]), fun h8 => ?_⟩
          cases hdef.symm.trans he
          have : j = .int 1 := by simpa [netItems, Json.member, Json.items] using hj
          rw [this] at h8
          exact absurd h8 (by decide)
      refine ⟨fun he8 => ?_, n, rfl, hboth.1⟩
      have hall := hboth.1
      rw [he8] at hall
      rw [Option.map_some, nctAllows_missing hall]
      exact ⟨hts (h8.resolve_left fun hne => hne he8), rfl, hboth.2 he8⟩

/-! ## The tree -/

/-- Addresses name one node each, and every subscription can be served. -/
structure SubInv (s : Server) : Prop where
  ids : s.NodupIds
  below : ∀ n ∈ s.tree.nodes, n.id < s.nextId
  servable : s.SubsServable

namespace SubInv

variable {s s' : Server}

theorem congr (h : SubInv s) (ht : s'.tree = s.tree) (hn : s'.nextId = s.nextId) : SubInv s' := by
  refine ⟨?_, ?_, ?_⟩
  · unfold Server.NodupIds; rw [ht]; exact h.ids
  · rw [ht, hn]; exact h.below
  · unfold Server.SubsServable; rw [ht]; exact h.servable

/-- Lookups on the way keep the subscriptions they leave. -/
theorem looksUp (h : SubInv s) {now : CStr} (hl : s.LooksUp now s') : SubInv s' := by
  have hsp := hl.spares h.ids
  refine ⟨hsp.nodupIds h.ids, fun n' hn' => ?_, fun e he m' hm' hty => ?_⟩
  · obtain ⟨n, hn, hr⟩ := hsp.tree.mem hn'
    rw [← hr.id, hsp.nextId]
    exact h.below n hn
  · obtain ⟨p, c, hc, ⟨op, hp, -⟩, hpr⟩ := (hl.recounts h.ids).cell he
    obtain ⟨m, hm, o, rfl, ho⟩ := hpr.root hm'
    have hserv := h.servable _ hc m hm hty
    have henc : o.get .enc = m.obj.get .enc := Assoc.get_congr (ho .enc (by decide))
    have hnct : o.get .nct = m.obj.get .nct := Assoc.get_congr (ho .nct (by decide))
    rw [hp]
    unfold Servable at hserv ⊢
    dsimp only
    rw [henc, hnct]
    exact hserv

/-- A node changes, in its place; a subscription can still be served. -/
theorem modifyNode (h : SubInv s) {i : Nat} {f : RTNode → RTNode} (hid : ∀ n, (f n).id = n.id) (hty : ∀ n, (f n).ty = n.ty)
    (hf : ∀ e ∈ s.tree.cells, ∀ m ∈ e.2.roots, m.id = i → m.ty = .sub → Servable e.1.ty (f m).obj) :
    SubInv (s.modifyNode i f) := by
  have hif : ∀ n : RTNode, (if n.id = i then f n else n).id = n.id ∧ (if n.id = i then f n else n).ty = n.ty := by
    intro n
    split
    · exact ⟨hid n, hty n⟩
    · exact ⟨rfl, rfl⟩
  refine ⟨?_, ?_, ?_⟩
  · unfold Server.NodupIds
    have hids : (s.modifyNode i f).tree.nodes.map (·.id) = s.tree.nodes.map (·.id) := by
      rw [Server.nodes_modifyNode, List.map_map]
      exact List.map_congr_left fun n _ => (hif n).1
    rw [hids]
    exact h.ids
  · intro n hn
    rw [Server.nodes_modifyNode] at hn
    obtain ⟨m, hm, rfl⟩ := List.mem_map.mp hn
    rw [(hif m).1]
    exact h.below m hm
  · intro e he m hm hmty
    rw [Server.cells_modifyNode] at he
    obtain ⟨e₀, he₀, rfl⟩ := List.mem_map.mp he
    dsimp only at hm ⊢
    rw [Forest.roots_modify] at hm
    obtain ⟨m₀, hm₀, rfl⟩ := List.mem_map.mp hm
    rw [(hif e₀.1).2]
    by_cases hmi : m₀.id = i
    · rw [if_pos (hasId_iff.mpr hmi)] at hmty ⊢
      exact hf e₀ he₀ m₀ hm₀ hmi ((hty m₀).symm.trans hmty)
    · rw [if_neg (fun hh => hmi (hasId_iff.mp hh))] at hmty ⊢
      exact h.servable e₀ he₀ m₀ hm₀ hmty

/-- A new leaf below a node. -/
theorem graft (h : SubInv s) {p x : RTNode} (hp : p ∈ s.tree.nodes) (hid : x.id = s.nextId)
    (hx : x.ty = .sub → Servable p.ty x.obj) (ht : s'.tree = s.tree.graft (RTNode.hasId p.id) (insertChild x))
    (hn : s'.nextId = s.nextId + 1) : SubInv s' := by
  have hperm : s'.tree.nodes.Perm (x :: s.tree.nodes) := by
    rw [ht]
    exact Server.nodes_graft h.ids hp rfl
  refine ⟨?_, ?_, ?_⟩
  · unfold Server.NodupIds
    rw [(hperm.map _).nodup_iff, List.map_cons, List.nodup_cons]
    refine ⟨fun hmem => ?_, h.ids⟩
    obtain ⟨m, hm, he⟩ := List.mem_map.mp hmem
    have := h.below m hm
    omega
  · intro n hn'
    rw [hn]
    rcases List.mem_cons.mp (hperm.subset hn') with rfl | hm
    · omega
    · have := h.below n hm
      omega
  · intro e he m hm hmty
    rw [ht, Forest.mem_cells_graft (mem_cells_insertChild x)] at he
    rcases he with ⟨a, c, hc, rfl⟩ | ⟨rfl, -⟩
    · by_cases ha : RTNode.hasId p.id a = true
      · rw [if_pos ha] at hm
        obtain rfl := h.ids.eq (Forest.mem_nodes_of_cell hc) hp (hasId_iff.mp ha)
        rcases List.mem_cons.mp ((roots_insertChild x _).subset hm) with rfl | hm
        · exact hx hmty
        · rw [Forest.roots_graft] at hm
          exact h.servable _ hc m hm hmty
      · rw [if_neg ha, Forest.roots_graft] at hm
        exact h.servable _ hc m hm hmty
    · cases hm

end SubInv

/-! ## Runs -/

/-- A call of `create_sub` or `update_sub`, with the node it is called on. -/
inductive SubCall where
  | create (req : Req) (parent : Nat)
  | update (req : Req) (target : Nat)

namespace Server

/-- The node is below time series only, that is, its parent is one. -/
def underTs (s : Server) (i : Nat) : Bool :=
  s.tree.cells.all fun e => !e.2.roots.any (RTNode.hasId i) || e.1.ty = .ts

/-- The call, on a parent that may have subscriptions or on a subscription. -/
def callSub (env : Env) (verify : CStr → Int) : SubCall → Server → Option (Server × Resp)
  | .create req i, s => match s.node? i with
    | none => none
    | some p => if ResourceType.isValidChildType p.ty .sub then s.createSub env verify req p else none
  | .update req i, s => match s.node? i with
    | none => none
    | some t => if t.ty = .sub then s.updateSub env verify req t else none

end Server

/-- The calls that leave subscriptions that can be served: a creation that gives no content type asks for
events that the default one is allowed for, and an update fits what is stored. -/
def SubCall.fits (s : Server) : SubCall → Bool
  | create req _ => req.pc.has .nct || (netItems (req.pc.get .enc)).all fun j => nctAllows j.valueint nctAllAttributes
  | update req i => (s.node? i).all fun t => fitsUpdate (s.underTs i) t.obj req.pc

/-- One call of a run. -/
def SubStep (s s' : Server) : Prop := ∃ env verify c resp, s.callSub env verify c = some (s', resp)

/-- One call of a run that meets the condition. -/
def FittingStep (s s' : Server) : Prop :=
  ∃ env verify c resp, SubCall.fits s c = true ∧ s.callSub env verify c = some (s', resp)

/-- A tree without subscriptions. -/
def Unsubscribed (s : Server) : Prop :=
  s.NodupIds ∧ (∀ n ∈ s.tree.nodes, n.id < s.nextId) ∧ ∀ n ∈ s.tree.nodes, n.ty ≠ .sub

instance (s : Server) : Decidable (Unsubscribed s) :=
  inferInstanceAs (Decidable (s.NodupIds ∧ (∀ n ∈ s.tree.nodes, _) ∧ ∀ n ∈ s.tree.nodes, _))

section Step

variable {s s' : Server} {env : Env} {verify : CStr → Int} {req : Req} {resp : Resp}

theorem subInv_start (h : Unsubscribed s) : SubInv s :=
  ⟨h.1, h.2.1, fun _ he m hm hty => absurd hty (h.2.2 m (Forest.roots_of_cell he hm))⟩

theorem subInv_create (h : SubInv s) {p : RTNode} (hp : p ∈ s.tree.nodes)
    (hfit : req.pc.has .nct = true ∨ ∀ j ∈ netItems (req.pc.get .enc), nctAllows j.valueint nctAllAttributes = true)
    (he : s.createSub env verify req p = some (s', resp)) : SubInv s' := by
  unfold Server.createSub at he
  simp only [Option.bind_eq_bind] at he
  obtain ⟨⟨sub, n⟩, hgen, he⟩ := Option.bind_eq_some_iff.mp he
  obtain ⟨pi, -, hget⟩ := addGeneralAttribute_some hgen
  have h₁ : SubInv { s with riCount := n } := h.congr rfl rfl
  have hnct : sub.get .nct = req.pc.get .nct := (hget .nct).trans (Option.or_none)
  have henc : sub.get .enc = req.pc.get .enc := (hget .enc).trans (Option.or_none)
  dsimp only at he
  split at he
  · cases he
    exact h₁.looksUp (Server.looksUp_afterChecks _ _)
  · rename_i o ho
    have hserv : Servable p.ty o := by
      refine servable_buildSub ho (hfit.imp ?_ ?_)
      · intro hh
        obtain ⟨v, hv⟩ := Assoc.has_iff.mp hh
        exact Assoc.has_iff.mpr ⟨v, hnct.trans hv⟩
      · rw [henc]
        exact id
    -- what the lookups of the targets leave
    have hl := looksUp_verifyAll (looksUp_verifyTarget env.now verify req) (o.arr .nu) { s with riCount := n }
    generalize verifyAll (verifyTarget env.now verify req) { s with riCount := n } (o.arr .nu) = v at he hl
    obtain ⟨s₁, r | ⟨⟩⟩ := v
    · cases he
      exact h₁.looksUp hl
    have h₁ := h₁.looksUp hl
    dsimp only at he
    unfold Server.storeSub at he
    split at he
    · obtain ⟨rn, -, he⟩ := Option.bind_eq_some_iff.mp he
      split at he
      · cases he; exact h₁
      · cases he; exact h₁.congr rfl rfl
    · rw [Option.ite_none_right_eq_some] at he
      obtain ⟨hparent, he⟩ := he
      obtain ⟨p', hp'⟩ := Option.isSome_iff_exists.mp hparent
      obtain ⟨hp₁, hid₁⟩ := Server.node?_mem hp'
      have hty₁ : p'.ty = p.ty := by
        obtain ⟨q, hq, hr⟩ := (hl.spares h.ids).tree.mem hp₁
        obtain rfl := h.ids.eq hq hp (hr.id.trans hid₁)
        exact hr.ty
      unfold Server.storeResource at he
      simp only [Option.bind_eq_bind] at he
      obtain ⟨rn, -, he⟩ := Option.bind_eq_some_iff.mp he
      split at he
      · cases he; exact h₁
      · rename_i db _
        obtain ⟨x, hx, he⟩ := Option.bind_eq_some_iff.mp he
        cases he
        obtain ⟨hid, hxty, -, -, -, -, -, hattr, -⟩ := createRtnode_some hx
        have hx' : Servable p.ty x.obj := by
          unfold Servable at hserv ⊢
          rw [hattr .enc (by decide), hattr .nct (by decide)]
          exact hserv
        -- linked under the parent, then entered in its list
        have h₂ : SubInv { s₁ with
            tree := s₁.tree.graft (RTNode.hasId p.id) (insertChild { x with uri := p.uri ++ '/' :: x.rn }),
            db := db, nextId := s₁.nextId + 1 } :=
          h₁.graft (p := p') (x := { x with uri := p.uri ++ '/' :: x.rn }) hp₁ hid (fun _ => hty₁ ▸ hx') (by rw [hid₁]) rfl
        unfold Server.addChildResourceTree
        dsimp only
        rw [if_pos hxty, if_neg (by rw [hxty]; decide)]
        exact h₂.modifyNode (i := p.id) (f := fun n => { n with subs := n.subs ++ [x.id], subCnt := n.subCnt + 1 })
          (fun _ => rfl) (fun _ => rfl) fun e he m hm _ hmty => h₂.servable e he m hm hmty

theorem subInv_update (h : SubInv s) {t : RTNode} (ht : t ∈ s.tree.nodes) (hfit : fitsUpdate (s.underTs t.id) t.obj req.pc = true)
    (he : s.updateSub env verify req t = some (s', resp)) : SubInv s' := by
  unfold Server.updateSub at he
  split at he
  · cases he; exact h
  · split at he
    · cases he
      exact h.looksUp (Server.looksUp_afterChecks _ _)
    · rename_i hv
      -- what the lookups of the targets leave
      have hl := looksUp_verifyAll (looksUp_reverifyTarget env.now verify req) (req.pc.arr .nu) s
      generalize verifyAll (reverifyTarget env.now verify req) s (req.pc.arr .nu) = v at he hl
      obtain ⟨s₁, r | ⟨⟩⟩ := v
      · cases he
        exact h.looksUp hl
      dsimp only at he
      split at he
      · cases he
      · simp only [Option.bind_eq_bind, Option.bind_eq_some_iff, Option.pure_def, Option.some.injEq] at he
        obtain ⟨ri, -, he⟩ := he
        cases he
        refine SubInv.congr (s := s₁.setObj t.id _) ((h.looksUp hl).modifyNode (fun _ => rfl) (fun _ => rfl) ?_) rfl rfl
        intro e hce m' hm' hid hmty
        obtain ⟨p, c, hc, ⟨op, hp, -⟩, hpr⟩ := (hl.recounts h.ids).cell hce
        obtain ⟨m, hm, o, rfl, -⟩ := hpr.root hm'
        obtain rfl := h.ids.eq (Forest.roots_of_cell hc hm) ht hid
        rw [hp]
        refine servable_update (h.servable _ hc m hm hmty) (fun hu => ?_) hv hfit
        unfold Server.underTs at hu
        have := List.all_eq_true.mp hu _ hc
        simp only [Bool.or_eq_true, Bool.not_eq_true', decide_eq_true_eq] at this
        refine this.resolve_left fun hany => ?_
        rw [List.any_eq_true.mpr ⟨m, hm, hasId_iff.mpr rfl⟩] at hany
        cases hany

/-- One call keeps the invariant. -/
theorem subInv_step (h : SubInv s) (hs : FittingStep s s') : SubInv s' := by
  obtain ⟨env, verify, c, resp, hfit, he⟩ := hs
  cases c with
  | create req i =>
    unfold Server.callSub at he
    dsimp only at he
    split at he
    · cases he
    · rename_i p hp
      split at he
      · refine subInv_create h (Server.node?_mem hp).1 ?_ he
        simpa [SubCall.fits, List.all_eq_true] using hfit
      · cases he
  | update req i =>
    unfold Server.callSub at he
    dsimp only at he
    split at he
    · cases he
    · rename_i t ht
      split at he
      · obtain ⟨hm, rfl⟩ := Server.node?_mem ht
        refine subInv_update h hm ?_ he
        simpa [SubCall.fits, ht] using hfit
      · cases he

end Step

/-- In every run whose calls meet the condition, every subscription can be served in every state reached. -/
theorem servable_of_fitting_run {s : Server} (h : Reach Unsubscribed FittingStep s) : s.SubsServable :=
  (h.inv (I := SubInv) (fun _ => subInv_start) fun _ _ => subInv_step).servable

/-! ## Two runs -/

/-- A subscription of the CSEBase, whose criterion and content type are changed one after the other. -/
def changedInTurn : List SubCall :=
  [.create (adminReq .create "TinyIoT" .sub [(.nu, .arr [.str adminAeId]), (.enc, .obj [(.net, .arr [.int 1, .int 3])])]) 0,
   .update (adminReq .update "TinyIoT/s" .sub [(.enc, .obj [(.net, .arr [.int 4])])]) 2,
   .update (adminReq .update "TinyIoT/s" .sub [(.nct, .int 3)]) 2]

/-- A call of a run from the first start, where targets answer 2000, if it is one of those that `ok` allows. -/
def callIf (ok : Server → SubCall → Bool) (s : Server) (c : SubCall) : Option Server :=
  if ok s c then (s.callSub firstDay (fun _ => 2000) c).map (·.1) else none

theorem callIf_some {ok : Server → SubCall → Bool} {s s' : Server} {c : SubCall} (h : callIf ok s c = some s') :
    ok s c = true ∧ ∃ resp, s.callSub firstDay (fun _ => 2000) c = some (s', resp) := by
  unfold callIf at h
  split at h
  · rename_i hok
    obtain ⟨⟨s₁, resp⟩, he, rfl⟩ := Option.map_eq_some_iff.mp h
    exact ⟨hok, resp, he⟩
  · cases h

theorem servable_of_fitting_run_three : ∃ s, Reach Unsubscribed FittingStep s ∧
    (s.tree.nodes.countP fun n => n.ty = .sub) = 1 ∧ s.SubsServable := by
  have hrun : (boot firstDay).any (fun s => decide (Unsubscribed s) && (changedInTurn.foldlM (callIf SubCall.fits) s).any
      fun s => (s.tree.nodes.countP fun n => n.ty = .sub) = 1) = true := by decide +kernel
  obtain ⟨s₀, -, hc⟩ := (Option.any_eq_true _ _).mp hrun
  rw [Bool.and_eq_true] at hc
  obtain ⟨s, hs, hone⟩ := (Option.any_eq_true _ _).mp hc.2
  have hr : Reach Unsubscribed FittingStep s := by
    refine Reach.of_foldlM ?_ changedInTurn (.start (of_decide_eq_true hc.1)) hs
    intro s c s' he
    obtain ⟨hok, resp, he⟩ := callIf_some he
    exact ⟨firstDay, _, c, resp, hok, he⟩
  exact ⟨s, hr, of_decide_eq_true hone, servable_of_fitting_run hr⟩

/-- A subscription of the CSEBase that is updated to report missing data. -/
def missingDataElsewhere : List SubCall :=
  [.create (adminReq .create "TinyIoT" .sub [(.nu, .arr [.str adminAeId]), (.enc, .obj [(.net, .arr [.int 1])])]) 0,
   .update (adminReq .update "TinyIoT/s" .sub [(.nct, .int 5),
      (.enc, .obj [(.net, .arr [.int 8]), (.md, .obj [(.other "num".toList, .int 1)])])]) 2]

/-- The update does not look at the parent. -/
theorem not_servable_missing_data_elsewhere : ¬ ∀ s, Reach Unsubscribed SubStep s → s.SubsServable := by
  intro h
  have hrun : (boot firstDay).any (fun s => decide (Unsubscribed s) &&
      (missingDataElsewhere.foldlM (callIf fun _ _ => true) s).any fun s => !decide s.SubsServable) = true := by
    decide +kernel
  obtain ⟨s₀, -, hc⟩ := (Option.any_eq_true _ _).mp hrun
  rw [Bool.and_eq_true] at hc
  obtain ⟨s, hs, hbad⟩ := (Option.any_eq_true _ _).mp hc.2
  have hr : Reach Unsubscribed SubStep s := by
    refine Reach.of_foldlM ?_ missingDataElsewhere (.start (of_decide_eq_true hc.1)) hs
    intro s c s' he
    obtain ⟨-, resp, he⟩ := callIf_some he
    exact ⟨firstDay, _, c, resp, he⟩
  simp [h s hr] at hbad

end TinyIoT
