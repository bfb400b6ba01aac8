/-
The attributes of the detection of missing data through the handlers of time series: the arrival of an
instance changes them where it records a missing point and nowhere else, an update leaves what its body
says, and evictions and the deletion of other resources leave them alone.
-/
import TinyIoT.Server.Boot
import TinyIoT.Server.Spared
import TinyIoT.Monitor.Series

namespace TinyIoT

/-! ## The attributes -/

def missingAttrs : List Attr := [.ri, .mdd, .pei, .peid, .mdt, .mdn, .mdc, .mdlt]

/-- The objects of a time series agree on the detection of missing data. -/
def SameMissing (o o' : Obj) : Prop := ∀ k ∈ missingAttrs, Assoc.entries o' k = Assoc.entries o k

namespace SameMissing

variable {o o' o'' : Obj} {k : Attr}

theorem refl (o : Obj) : SameMissing o o := fun _ _ => rfl

theorem trans (h : SameMissing o o') (h' : SameMissing o' o'') : SameMissing o o'' :=
  fun k hk => (h' k hk).trans (h k hk)

theorem get (h : SameMissing o o') (hk : k ∈ missingAttrs) : o'.get k = o.get k := Assoc.get_congr (h k hk)

theorem mdlt (h : SameMissing o o') : mdltOf o' = mdltOf o := mdltOf_congr (h.get (by decide))

theorem of_entries (hk : k ∉ missingAttrs) (h : ∀ k', k ≠ k' → Assoc.entries o' k' = Assoc.entries o k') :
    SameMissing o o' := fun k' hk' => h k' fun he => hk (he ▸ hk')

theorem set (o : Obj) (v : Json) (hk : k ∉ missingAttrs) : SameMissing o (o.set k v) :=
  of_entries hk fun _ h => Assoc.entries_set_ne h

theorem add (o : Obj) (v : Json) (hk : k ∉ missingAttrs) : SameMissing o (o.add k v) :=
  of_entries hk fun _ h => Assoc.entries_add_ne h

theorem putStr (o : Obj) (v : CStr) (hk : k ∉ missingAttrs) : SameMissing o (o.putStr k v) := by
  unfold Obj.putStr
  split
  · exact set _ _ hk
  · exact add _ _ hk

theorem normalizeCount (o : Obj) (hk : k ∉ missingAttrs) : SameMissing o (normalizeCount o k) := by
  unfold TinyIoT.normalizeCount
  split
  · exact add _ _ hk
  · exact set _ _ hk

theorem countIn (db : Db) (tsRi : CStr) (cs : Int) (o : Obj) : SameMissing o (countIn db tsRi cs o) := by
  unfold TinyIoT.countIn
  dsimp only
  cases o.get .cni with
  | none =>
    dsimp only
    split
    · exact refl o
    · exact set _ _ (by decide)
  | some j =>
    dsimp only
    split
    · exact set _ _ (by decide)
    · exact (set _ _ (by decide)).trans (set _ _ (by decide))

theorem countDown (o : Obj) (cs : Int) : SameMissing o (Server.countDown o cs) := by
  unfold Server.countDown
  dsimp only
  cases o.get .cni with
  | none =>
    dsimp only
    split
    · exact refl o
    · exact set _ _ (by decide)
  | some j =>
    dsimp only
    split
    · exact set _ _ (by decide)
    · exact (set _ _ (by decide)).trans (set _ _ (by decide))

/-- A deletion elsewhere leaves them. -/
theorem of_spared (h : SparedObj o o') : SameMissing o o' := by
  have hdisj : ∀ k ∈ missingAttrs, k ∉ .mid :: deletionAttrs := by decide
  exact fun k hk => h.attrs k (hdisj k hk)

end SameMissing

/-! ## The node of a time series -/

namespace Server

/-- The addresses of the nodes are distinct, and those from `nextId` on are free. -/
structure Sane (s : Server) : Prop where
  ids : s.NodupIds
  below : ∀ n ∈ s.tree.nodes, n.id < s.nextId

/-- The node at this address, where there is one, agrees with the object. -/
def ShowsAt (s : Server) (i : Nat) (o : Obj) : Prop := ∀ n ∈ s.tree.nodes, n.id = i → SameMissing o n.obj

variable {s s' : Server} {i : Nat} {o o' : Obj}

theorem Sane.congr (h : s.Sane) (ht : s'.tree = s.tree) (hn : s.nextId ≤ s'.nextId) : s'.Sane := by
  constructor
  · unfold NodupIds
    rw [ht]
    exact h.ids
  · rw [ht]
    exact fun n hm => (h.below n hm).trans_le hn

theorem ShowsAt.congr (h : s.ShowsAt i o) (ht : s'.tree = s.tree) : s'.ShowsAt i o := by
  unfold ShowsAt
  rw [ht]
  exact h

theorem ShowsAt.mono (h : s.ShowsAt i o) (ho : SameMissing o' o) : s.ShowsAt i o' :=
  fun n hn hi => ho.trans (h n hn hi)

theorem Sane.setObj (h : s.Sane) (i : Nat) (o : Obj) : (s.setObj i o).Sane := by
  have hids : (s.setObj i o).tree.nodes.map (·.id) = s.tree.nodes.map (·.id) := by
    unfold Server.setObj
    rw [nodes_modifyNode, List.map_map]
    apply List.map_congr_left
    intro n _
    simp only [Function.comp]
    split <;> rfl
  constructor
  · unfold NodupIds
    rw [hids]
    exact h.ids
  · intro n hn
    obtain ⟨m, hm, he⟩ := List.mem_map.mp (hids ▸ List.mem_map_of_mem (f := RTNode.id) hn)
    rw [← he]
    exact h.below m hm

theorem showsAt_setObj (s : Server) (i : Nat) (o : Obj) : (s.setObj i o).ShowsAt i o := by
  intro n hn hi
  unfold Server.setObj at hn
  rw [nodes_modifyNode] at hn
  obtain ⟨m, -, rfl⟩ := List.mem_map.mp hn
  split
  · exact .refl o
  · rename_i hm
    rw [if_neg hm] at hi
    exact absurd hi hm

theorem Sane.freeRtnode (h : s.Sane) (j : Nat) : (s.freeRtnode j).Sane := by
  have hsub : (s.freeRtnode j).tree.nodes.Sublist s.tree.nodes := Forest.nodes_remove_sublist _ _
  exact ⟨h.ids.sublist (hsub.map _), fun n hn => h.below n (hsub.subset hn)⟩

theorem ShowsAt.freeRtnode (h : s.ShowsAt i o) (j : Nat) : (s.freeRtnode j).ShowsAt i o :=
  fun n hn hi => h n ((Forest.nodes_remove_sublist _ _).subset hn) hi

/-- A new node below another one. -/
theorem Sane.graft (h : s.Sane) {p q x : RTNode} (hq : q ∈ s.tree.nodes) (hqp : q.id = p.id) (hx : x.id = s.nextId) (h1 : x.ty ≠ .csr)
    (h2 : x.ty ≠ .sub) (db : Db) :
    ({ s with db := db, nextId := s.nextId + 1 }.addChildResourceTree p x).Sane ∧
      ∀ n ∈ ({ s with db := db, nextId := s.nextId + 1 }.addChildResourceTree p x).tree.nodes,
        n ∈ s.tree.nodes ∨ n = { x with uri := p.uri ++ '/' :: x.rn } := by
  rw [addChildResourceTree_plain h1 h2]
  have hperm := nodes_graft (i := p.id) (x := { x with uri := p.uri ++ '/' :: x.rn }) h.ids hq hqp
  have hmem : ∀ n ∈ (s.tree.graft (RTNode.hasId p.id) (insertChild { x with uri := p.uri ++ '/' :: x.rn })).nodes,
      n ∈ s.tree.nodes ∨ n = { x with uri := p.uri ++ '/' :: x.rn } := by
    intro n hn
    rcases List.mem_cons.mp (hperm.subset hn) with rfl | hn
    · exact .inr rfl
    · exact .inl hn
  refine ⟨⟨?_, ?_⟩, hmem⟩
  · unfold NodupIds
    rw [(hperm.map _).nodup_iff, List.map_cons, List.nodup_cons]
    refine ⟨fun hin => ?_, h.ids⟩
    obtain ⟨m, hm, he⟩ := List.mem_map.mp hin
    have := h.below m hm
    dsimp only at he
    omega
  · intro n hn
    rcases hmem n hn with hn | rfl
    · have := h.below n hn
      dsimp only
      omega
    · dsimp only
      omega

/-! ## Evictions -/

theorem deleteOldestTsi_shows (h : s.deleteOldestTsi i = some s') (hs : s.Sane) (ho : s.ShowsAt i o) :
    s'.Sane ∧ s'.ShowsAt i o ∧ s'.nextId = s.nextId := by
  unfold deleteOldestTsi at h
  split at h
  · cases h
    exact ⟨hs, ho, rfl⟩
  · rename_i oldest _
    split at h
    · cases h
    · simp only [Option.bind_eq_bind, Option.bind_eq_some_iff, Option.pure_def, Option.some.injEq] at h
      obtain ⟨p, hp, cs, -, rfl⟩ := h
      obtain ⟨hpm, hpi⟩ := node?_mem hp
      have hsame : SameMissing o (countDown p.obj cs.valueint) := (ho p hpm hpi).trans (.countDown _ _)
      have hset := hs.setObj i (countDown p.obj cs.valueint)
      have hsane : Sane { s.setObj i (countDown p.obj cs.valueint) with
          db := s.db.dbDeleteOnem2mResource oldest } := hset.congr rfl le_rfl
      exact ⟨hsane.freeRtnode oldest.id, (((showsAt_setObj s i _).mono hsame).congr rfl).freeRtnode oldest.id, rfl⟩

theorem evictTsi_shows {exceeds : Int → Int → Bool} {fuel : Nat} {cni cbs : Int}
    (h : evictTsi exceeds i fuel s cni cbs = some (.within s')) (hs : s.Sane) (ho : s.ShowsAt i o) :
    s'.Sane ∧ s'.ShowsAt i o := by
  induction fuel generalizing s cni cbs with
  | zero =>
    unfold evictTsi at h
    split at h
    · cases h
    · cases h
      exact ⟨hs, ho⟩
  | succ fuel ih =>
    unfold evictTsi at h
    split at h
    · simp only [Option.bind_eq_bind, Option.bind_eq_some_iff] at h
      obtain ⟨s₁, h₁, c, -, h⟩ := h
      obtain ⟨hs₁, ho₁, -⟩ := deleteOldestTsi_shows h₁ hs ho
      exact ih h hs₁ ho₁
    · cases h
      exact ⟨hs, ho⟩

end Server

/-! ## The arrival of an instance -/

/-- What `create_tsi` has in hand when it comes to the detection: the rows with the new one, the object of
the time series, its identifier, and `dgt` and `snr` of the instance. -/
structure Arrival where
  db : Db
  ts : Obj
  tsRi : CStr
  dgt : Option CStr
  snr : Int

/-- `create_tsi` up to the detection, if it comes to it. -/
def arrivalTsi (env : TsEnv) (req : Req) (s : Server) (parent : RTNode) : Option Arrival :=
  if parent.ty ≠ .ts then none
  else match validateMandatoryAttrs .tsi req.pc .create with
    | .error _ => none
    | .ok () => do
      let tsi := req.pc.del .cs
      let tsRi ← parent.ri
      if (tsi.str .dgt).any (s.db.dbTsiCheckDgtDup tsRi) then none
      else do
        let con ← tsi.str .con
        let cs : Int := con.length
        let tsi := tsi.add .cs (.int cs)
        let mbs ← parent.obj.get .mbs
        if mbs.valueint < cs then none
        else
          let obj := normalizeCount (normalizeCount parent.obj .cni) .cbs
          match tsiSnr s.db tsRi tsi with
          | .error _ => none
          | .ok snr => do
            let (tsi, _) ← addGeneralAttribute env.toEnv (buildTsi s.db tsRi snr tsi) obj .tsi s.riCount
            let rn ← tsi.str .rn
            let db ← s.db.dbStoreResource tsi (parent.uri ++ '/' :: rn)
            return ⟨db, countIn db tsRi cs obj, tsRi, tsi.str .dgt, snr⟩

/-- The object of the time series after the detection. -/
def Arrival.detected (env : TsEnv) (a : Arrival) : Obj := detectMissing env a.db a.ts a.tsRi a.dgt a.snr

namespace Server

variable {s s' : Server} {env : TsEnv} {req : Req} {t : RTNode} {resp : Resp}

theorem settleTsi_shows {i : Nat} {tsRi : CStr} {mbs : Int} {new : Nat} {o : Obj}
    (h : s.settleTsi i tsRi mbs new = some (.reply s' resp)) (hs : s.Sane) (ho : s.ShowsAt i o) :
    s'.Sane ∧ s'.ShowsAt i o := by
  unfold settleTsi at h
  simp only [Option.bind_eq_bind, Option.bind_eq_some_iff] at h
  obtain ⟨p, -, mni, -, c, -, e, he, h⟩ := h
  cases e with
  | endless => cases h
  | within s₁ =>
    simp only [Option.bind_eq_some_iff, Option.pure_def, Option.some.injEq, Outcome.reply.injEq] at h
    obtain ⟨n, -, m, -, rfl, -⟩ := h
    obtain ⟨hs₁, ho₁⟩ := evictTsi_shows he hs ho
    exact ⟨hs₁.congr rfl le_rfl, ho₁.congr rfl⟩

theorem storeTsi_shows {p q : RTNode} {o tsi : Obj} {tsRi : CStr} {cs mbs snr : Int} (hs : s.Sane)
    (hq : q ∈ s.tree.nodes) (hqp : q.id = p.id) (ho : s.ShowsAt p.id o)
    (h : s.storeTsi env p tsRi tsi cs mbs snr = some (.reply s' resp)) :
    s'.Sane ∧ ∃ tsi' n rn, addGeneralAttribute env.toEnv tsi p.obj .tsi s.riCount = some (tsi', n) ∧
      tsi'.str .rn = some rn ∧
      (s.db.dbStoreResource tsi' (p.uri ++ '/' :: rn) = none ∧ s'.ShowsAt p.id o ∨
        ∃ db, s.db.dbStoreResource tsi' (p.uri ++ '/' :: rn) = some db ∧
          s'.ShowsAt p.id (detectMissing env db (countIn db tsRi cs p.obj) tsRi (tsi'.str .dgt) snr)) := by
  unfold storeTsi at h
  simp only [Option.bind_eq_bind, Option.bind_eq_some_iff] at h
  obtain ⟨⟨tsi', n⟩, hgen, rn, hrn, h⟩ := h
  dsimp only at h
  split at h
  · rename_i hdb
    cases h
    exact ⟨hs.congr rfl le_rfl, tsi', n, rn, hgen, hrn, .inl ⟨hdb, ho.congr rfl⟩⟩
  · rename_i db hdb
    simp only [Option.bind_eq_some_iff] at h
    obtain ⟨node, hnode, h⟩ := h
    obtain ⟨hid, hty, -⟩ := createRtnode_some hnode
    generalize hts : (detectMissing env db (countIn db tsRi cs p.obj) tsRi (tsi'.str .dgt) snr).putStr .lt env.now = ts at h
    have hset : Sane { s.setObj p.id ts with riCount := n } := (hs.setObj p.id ts).congr rfl le_rfl
    have hshow : ShowsAt { s.setObj p.id ts with riCount := n } p.id ts := (showsAt_setObj s p.id ts).congr rfl
    have hold : ∃ q' ∈ (s.setObj p.id ts).tree.nodes, q'.id = p.id := by
      unfold setObj
      rw [nodes_modifyNode]
      exact ⟨_, List.mem_map_of_mem hq, by rw [if_pos hqp]; exact hqp⟩
    obtain ⟨q', hq', hqp'⟩ := hold
    obtain ⟨hgraft, hmem⟩ := hset.graft (x := node) hq' hqp' hid (by rw [hty]; decide) (by rw [hty]; decide)
      (db.dbUpdateResource [(.lt, .str env.now)] tsRi)
    obtain ⟨hs', ho'⟩ := settleTsi_shows (o := ts) h hgraft (by
      intro m hm hmi
      rcases hmem m hm with hm | rfl
      · exact hshow m hm hmi
      · -- the new node has another address
        have hlt := hs.below q hq
        dsimp only at hmi
        have : (s.setObj p.id ts).nextId = s.nextId := rfl
        omega)
    refine ⟨hs', tsi', n, rn, hgen, hrn, .inr ⟨db, hdb, ho'.mono ?_⟩⟩
    rw [← hts]
    exact .putStr _ _ (by decide)

/-- The arrival of an instance leaves the object of the detection, or the object there was. -/
theorem createTsi_shows (hs : s.Sane) (ht : t ∈ s.tree.nodes) (h : s.createTsi env req t = some (.reply s' resp)) :
    s'.Sane ∧ (arrivalTsi env req s t = none ∧ s'.ShowsAt t.id t.obj ∨
      ∃ a, arrivalTsi env req s t = some a ∧ SameMissing t.obj a.ts ∧ s'.ShowsAt t.id (a.detected env)) := by
  have hkept : s.ShowsAt t.id t.obj := by
    intro n hn hi
    rw [hs.ids.eq hn ht hi]
    exact .refl _
  by_cases hty : t.ty ≠ .ts
  · rw [createTsi, if_pos hty] at h
    cases h
    exact ⟨hs, .inl ⟨if_pos hty, hkept⟩⟩
  rw [createTsi, if_neg hty] at h
  rw [arrivalTsi, if_neg hty]
  cases hr : validateMandatoryAttrs .tsi req.pc .create with
  | error r =>
    rw [hr] at h
    cases h
    exact ⟨hs, .inl ⟨rfl, hkept⟩⟩
  | ok _ =>
    simp only [hr, Option.bind_eq_bind, Option.bind_eq_some_iff] at h
    obtain ⟨tsRi, htri, h⟩ := h
    simp only [htri, Option.bind_eq_bind, Option.bind_some]
    by_cases hdup : ((req.pc.del .cs).str .dgt).any (s.db.dbTsiCheckDgtDup tsRi) = true
    · rw [if_pos hdup] at h ⊢
      cases h
      exact ⟨hs, .inl ⟨rfl, hkept⟩⟩
    rw [if_neg hdup] at h ⊢
    simp only [Option.bind_eq_some_iff] at h
    obtain ⟨con, hcon, mbs, hmbs, h⟩ := h
    simp only [hcon, hmbs, Option.bind_some]
    by_cases hbig : mbs.valueint < (con.length : Int)
    · rw [if_pos hbig] at h ⊢
      cases h
      exact ⟨hs, .inl ⟨rfl, hkept⟩⟩
    rw [if_neg hbig] at h ⊢
    set obj := TinyIoT.normalizeCount (TinyIoT.normalizeCount t.obj .cni) .cbs with hobj
    have hsame : SameMissing t.obj obj := (SameMissing.normalizeCount _ (by decide)).trans (.normalizeCount _ (by decide))
    have hset := hs.setObj t.id obj
    have hshow : (s.setObj t.id obj).ShowsAt t.id obj := showsAt_setObj s t.id obj
    have hdb : (s.setObj t.id obj).db = s.db := rfl
    rw [hdb] at h
    cases hsnr : tsiSnr s.db tsRi ((req.pc.del .cs).add .cs (.int con.length)) with
    | error r =>
      rw [hsnr] at h
      cases h
      exact ⟨hset, .inl ⟨rfl, hshow.mono hsame⟩⟩
    | ok snr =>
      rw [hsnr] at h
      obtain ⟨q, hq, hqi⟩ : ∃ q ∈ (s.setObj t.id obj).tree.nodes, q.id = t.id := by
        unfold setObj
        rw [nodes_modifyNode]
        exact ⟨_, List.mem_map_of_mem ht, by rw [if_pos rfl]⟩
      obtain ⟨hs', tsi', n, rn, hgen, hrn, hout⟩ :=
        storeTsi_shows (p := { t with obj := obj }) hset hq hqi hshow h
      have hgen' : addGeneralAttribute env.toEnv _ obj .tsi s.riCount = some (tsi', n) := hgen
      refine ⟨hs', ?_⟩
      simp only [hgen', hrn, Option.bind_some]
      rcases hout with ⟨hno, ho⟩ | ⟨db, hdb', ho⟩
      · exact .inl ⟨by rw [show s.db.dbStoreResource tsi' (t.uri ++ '/' :: rn) = none from hno]; rfl, ho.mono hsame⟩
      · refine .inr ⟨⟨db, TinyIoT.countIn db tsRi con.length obj, tsRi, tsi'.str .dgt, snr⟩, ?_,
          hsame.trans (.countIn _ _ _ _), ho⟩
        rw [show s.db.dbStoreResource tsi' (t.uri ++ '/' :: rn) = some db from hdb']
        rfl

/-! ## Updates and deletions -/

theorem settleTs_shows {ri : CStr} {ts : Obj} (h : s.settleTs t ri ts = some (.reply s' resp)) (hs : s.Sane) :
    s'.Sane ∧ s'.ShowsAt t.id ts := by
  unfold settleTs at h
  simp only [Option.bind_eq_bind, Option.bind_eq_some_iff] at h
  obtain ⟨e, he, h⟩ := h
  cases e with
  | endless => cases h
  | within s₁ =>
    simp only [Option.bind_eq_some_iff, Option.pure_def, Option.some.injEq, Outcome.reply.injEq] at h
    obtain ⟨n, -, rfl, -⟩ := h
    obtain ⟨hs₁, ho₁⟩ := evictTsi_shows he (hs.setObj t.id ts) (showsAt_setObj s t.id ts)
    exact ⟨hs₁.congr rfl le_rfl, ho₁.congr rfl⟩

theorem updateTs_refused {env : Env} {kept : Json → List Json} {r : Resp}
    (h : updatedTs env.now kept t.obj req.pc = .error r) : s.updateTs env kept req t = some (.reply s r) := by
  unfold updatedTs at h
  unfold updateTs
  split at h
  · rename_i hro
    cases h
    rw [if_pos hro]
  · rename_i hro
    rw [if_neg hro]
    simp only [bind, Except.bind] at h ⊢
    cases hc : checkTsCnf req.pc with
    | error e => rw [hc] at h; cases h; rfl
    | ok _ =>
      cases hm : checkMddUpdate t.obj req.pc with
      | error e => rw [hc, hm] at h; cases h; rfl
      | ok _ =>
        cases hp : updatePeriod t.obj req.pc with
        | error e => rw [hc, hm, hp] at h; cases h; rfl
        | ok body =>
          simp only [hc, hm, hp] at h
          cases h

theorem updateTs_nameless {env : Env} {kept : Json → List Json} {ts : Obj} (hri : t.ri = none)
    (h : updatedTs env.now kept t.obj req.pc = .ok ts) : s.updateTs env kept req t = none := by
  unfold updatedTs at h
  unfold updateTs
  split at h
  · cases h
  · rename_i hro
    rw [if_neg hro]
    simp only [bind, Except.bind] at h ⊢
    cases hc : checkTsCnf req.pc with
    | error e => rw [hc] at h; cases h
    | ok _ =>
      cases hm : checkMddUpdate t.obj req.pc with
      | error e => rw [hc, hm] at h; cases h
      | ok _ =>
        cases hp : updatePeriod t.obj req.pc with
        | error e => rw [hc, hm, hp] at h; cases h
        | ok body =>
          simp only [hri]
          rfl

/-- An update leaves the server as it was, or the time series as its body says. -/
theorem updateTs_shows {env : Env} {kept : Json → List Json} (h : s.updateTs env kept req t = some (.reply s' resp))
    (hs : s.Sane) : (∃ r, updatedTs env.now kept t.obj req.pc = .error r ∧ s' = s) ∨
      ∃ ts ri, updatedTs env.now kept t.obj req.pc = .ok ts ∧ t.ri = some ri ∧ s'.Sane ∧ s'.ShowsAt t.id ts := by
  cases hu : updatedTs env.now kept t.obj req.pc with
  | ok ts =>
    cases hri : t.ri with
    | none =>
      rw [updateTs_nameless hri hu] at h
      cases h
    | some ri =>
      obtain ⟨db, he⟩ := updateTs_eq_settleTs (s := s) hri hu
      rw [he] at h
      obtain ⟨hs', ho'⟩ := settleTs_shows h (hs.congr rfl le_rfl)
      exact .inr ⟨ts, ri, rfl, rfl, hs', ho'⟩
  | error r =>
    rw [updateTs_refused hu] at h
    cases h
    exact .inl ⟨resp, rfl, rfl⟩

theorem sane_boot {env : Env} {s : Server} (h : boot env = some s) : s.Sane ∧ s.nextId = 2 := by
  obtain ⟨cb, acp, r, q, ht, -, -, hn, hcb, -, -, -, -, -, -, -, hacp, -⟩ := boot_some h
  refine ⟨⟨?_, ?_⟩, hn⟩
  · unfold Server.NodupIds
    rw [ht]
    simp [Forest.nodes, hcb, hacp]
  · intro n hmem
    rw [ht] at hmem
    simp only [Forest.nodes, List.append_nil, List.mem_cons, List.not_mem_nil, or_false] at hmem
    rcases hmem with rfl | rfl
    · omega
    · omega

theorem Spares.sane (h : s.Spares s') (hs : s.Sane) : s'.Sane := by
  refine ⟨h.nodupIds hs.ids, fun m hm => ?_⟩
  obtain ⟨m₀, hm₀, hk⟩ := Forest.Pruned.mem h.tree hm
  rw [h.nextId, ← hk.id]
  exact hs.below m₀ hm₀

theorem Spares.showsAt (h : s.Spares s') {i : Nat} {o : Obj} (ho : s.ShowsAt i o) : s'.ShowsAt i o := by
  intro m hm hmi
  obtain ⟨m₀, hm₀, hk⟩ := Forest.Pruned.mem h.tree hm
  exact (ho m₀ hm₀ (hk.id.trans hmi)).trans (.of_spared hk.obj)

end Server

end TinyIoT
