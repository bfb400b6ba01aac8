/-
The age rule of a container: `update_cnt_cin` looks for instances older than `mia` among the children of the
container's node, and these hold the latest instance at most. A stored instance that is too old goes only when it
is that one.
-/
import TinyIoT.Container.Suffix
import TinyIoT.Container.Stored

namespace TinyIoT

/-! ## Too old instances -/

/-- A stored instance was created more than `mia` seconds before the clock. -/
def Row.expired (env : Env) (mia : Int) (r : Row) : Bool := mia < env.time - ((r.obj.str .ct).map env.created).getD 0

/-- The instances of a container that are in memory. -/
def cachedCins (s : Server) (c : RTNode) : List RTNode := (s.children c.id).roots.filter fun n => n.ty = .cin

/-- One instance of the container is in memory at most. It is a stored one, and its DELETE statement meets no other. -/
structure CachedOnce (s : Server) (c : RTNode) (l : List Row) : Prop where
  nodup : (l.map Row.ri).Nodup
  single : (cachedCins s c).length ≤ 1
  leaf : ∀ n k, (n, k) ∈ s.tree.cells → n.ty = .cin → k = .nil
  other : c.ty ≠ .cin
  stored : ∀ n ∈ cachedCins s c, ∃ r ∈ l, n.ri = r.ri ∧ n.obj.get .cs = r.obj.get .cs ∧ n.obj.get .ct = r.obj.get .ct
  alone : ∀ n ∈ cachedCins s c, ∀ r ∈ l, like (n.uri ++ ['/', '%']) r.uri = true → r.ri = n.ri

/-- Every stored instance that is too old is in memory. -/
def AgedAreCached (env : Env) (mia : Int) (s : Server) (c : RTNode) (l : List Row) : Prop :=
  ∀ r ∈ l, r.expired env mia = true → ∃ n ∈ cachedCins s c, n.ri = r.ri

instance (env : Env) (mia : Int) (s : Server) (c : RTNode) (l : List Row) : Decidable (AgedAreCached env mia s c l) :=
  inferInstanceAs (Decidable (∀ r ∈ l, _ → ∃ n ∈ cachedCins s c, _))

section

variable {env : Env} {req : Req} {s s₁ s' : Server} {c n : RTNode} {ri : CStr} {l : List Row} {mia : Json} {resp : Resp}

/-- What the age rule does, with one instance in memory at most. -/
theorem expireByMia_cases (h : Stocked s c ri l) (hc : CachedOnce s c l) (hmia : c.obj.get .mia = some mia)
    (hpos : 0 < mia.valueint) (he : s.expireByMia env (.inTree c.id) c = some s₁) :
    (s₁ = s ∧ ∀ n ∈ cachedCins s c, tooOld env mia.valueint n = false) ∨
      ∃ n o, cachedCins s c = [n] ∧ tooOld env mia.valueint n = true ∧ bumpCnt c.obj n.obj (-1) = some o ∧
        s₁ = Server.freeRtnode { s.persist (.inTree c.id) o with
          db := (s.persist (.inTree c.id) o).db.dbDeleteOnem2mResource n } n.id := by
  unfold Server.expireByMia at he
  simp only [hmia, if_pos hpos, Option.bind_eq_bind] at he
  obtain ⟨expired, hexp, he⟩ := Option.bind_eq_some_iff.mp he
  unfold expiredCins at hexp
  dsimp only at hexp
  split at hexp
  · have hexp' : ((cachedCins s c).filter (tooOld env mia.valueint)).take 128 = expired := Option.some.inj hexp
    have hsingle := hc.single
    cases hk : cachedCins s c with
    | nil =>
      rw [hk] at hexp'
      subst hexp'
      cases he
      exact .inl ⟨rfl, fun n hn => absurd hn List.not_mem_nil⟩
    | cons n k =>
      obtain rfl : k = [] := by
        rw [hk, List.length_cons] at hsingle
        exact List.eq_nil_of_length_eq_zero (by omega)
      rw [hk] at hexp'
      by_cases hold : tooOld env mia.valueint n = true
      · rw [List.filter_cons_of_pos hold] at hexp'
        subst hexp'
        unfold Server.dropExpired at he
        simp only [Option.bind_eq_bind] at he
        obtain ⟨s₂, hdrop, he⟩ := Option.bind_eq_some_iff.mp he
        unfold Server.dropCnt at hdrop
        rw [show (Ptr.inTree c.id).deref s = some c from Server.node?_eq h.ids h.node] at hdrop
        obtain ⟨o, ho, rfl⟩ := Option.map_eq_some_iff.mp hdrop
        cases he
        exact .inr ⟨n, o, rfl, hold, ho, rfl⟩
      · rw [List.filter_cons_of_neg hold] at hexp'
        subst hexp'
        cases he
        refine .inl ⟨rfl, fun m hm => ?_⟩
        rw [List.mem_singleton.mp hm]
        exact Bool.not_eq_true _ ▸ hold
  · cases hexp

/-- A cached instance is too old when its row is. -/
theorem tooOld_eq_expired {r : Row} (h : n.obj.get .ct = r.obj.get .ct) (m : Int) : tooOld env m n = r.expired env m := by
  unfold tooOld Row.expired
  rw [Obj.str_congr h]

/-- The node of the container once an instance has been counted out and freed. -/
theorem node?_freed {o : Obj} (h : Stocked s c ri l) (hc : CachedOnce s c l) (hn : n ∈ cachedCins s c) :
    ((s.setObj c.id o).freeRtnode n.id).node? c.id = some { c with obj := o } := by
  obtain ⟨hroot, hty⟩ := List.mem_filter.mp hn
  have hmem := Server.mem_of_mem_children hroot
  have hty' : n.ty = .cin := by simpa using hty
  have hne : c.id ≠ n.id := fun he => hc.other (h.ids.eq h.node hmem he ▸ hty')
  have hids : (s.setObj c.id o).NodupIds := h.ids.modify (f := fun m => { m with obj := o }) (fun _ _ _ => rfl) rfl
  have hnodes : ((s.setObj c.id o).freeRtnode n.id).tree.nodes =
      (s.setObj c.id o).tree.nodes.filter fun a => !RTNode.hasId n.id a := by
    refine Forest.nodes_remove_of_leaf fun a k hk ha => ?_
    rw [Server.setObj, Server.cells_modifyNode] at hk
    obtain ⟨⟨b, m⟩, hb, he⟩ := List.mem_map.mp hk
    have hid : a.id = b.id := by
      have := congrArg (fun e => e.1.id) he
      rw [← this]
      dsimp only
      split <;> rfl
    have hbn := h.ids.eq (Forest.mem_nodes_of_cell hb) hmem (hid.symm.trans (hasId_iff.mp ha))
    have hm := hc.leaf b m hb (hbn ▸ hty')
    have hk' := congrArg Prod.snd he
    rw [hm] at hk'
    exact hk'.symm
  have hin : { c with obj := o } ∈ ((s.setObj c.id o).freeRtnode n.id).tree.nodes := by
    rw [hnodes]
    exact List.mem_filter.mpr ⟨Server.mem_setObj h.node o, by simpa [RTNode.hasId] using hne⟩
  refine Server.node?_eq (n := { c with obj := o }) ?_ hin
  unfold Server.NodupIds
  rw [hnodes]
  exact (List.filter_sublist.map _).nodup hids

/-- The instances that are not too old. -/
def fresh (env : Env) (mia : Int) (l : List Row) : List Row := l.filter fun r => !r.expired env mia

/-- The container `c` has the instances `l` and counts them. -/
structure CountsRows (s : Server) (c : RTNode) (ri : CStr) (l : List Row) : Prop where
  rows : s.db.instances .cin ri = l
  node : ∃ c', s.node? c.id = some c' ∧ c'.obj.get .cni = some (.int l.length) ∧
    c'.obj.get .cbs = some (.int (contentBytes l))

/-- The row of an instance that is counted out goes, and no other of the container. -/
theorem rows_freed {o : Obj} {r : Row} (h : Stocked s c ri l) (hc : CachedOnce s c l) (hn : n ∈ cachedCins s c) (hr : r ∈ l)
    (hnr : n.ri = r.ri) (ho : o.get .ri = c.obj.get .ri) :
    ((s.persist (.inTree c.id) o).db.dbDeleteOnem2mResource n).instances .cin ri = l.filter fun x => x.ri ≠ r.ri := by
  obtain ⟨q, hq⟩ := Option.ne_none_iff_exists'.mp (h.named r hr).1
  have hwrite : (s.persist (.inTree c.id) o).db = s.db.dbUpdateResource o ri := by
    unfold Server.persist
    rw [show o.str .ri = some ri from Obj.str_of_get (ho.trans h.key)]
    rfl
  unfold Db.dbDeleteOnem2mResource
  rw [hnr, hq, hwrite]
  dsimp only
  rw [instances_filter, (instances_dbUpdateResource h.apart ri).1, h.rows]
  refine List.filter_congr fun x hx => ?_
  unfold Db.deleteMatches
  by_cases hxr : x.ri = some q
  · simp [hxr]
  · have hlike : like (n.uri ++ ['/', '%']) x.uri = false := by
      by_contra hl
      exact hxr ((hc.alone n hn x hx (by simpa using hl)).trans (hnr.trans hq))
    simp [hxr, hlike]

/-- With one instance in memory that is too old, it is the only one exactly when the others are fresh. -/
theorem agedAreCached_iff {r : Row} {m : Int} (hc : CachedOnce s c l) (hk : cachedCins s c = [n]) (hr : r ∈ l)
    (hnr : n.ri = r.ri) (hold : r.expired env m = true) :
    AgedAreCached env m s c l ↔ fresh env m l = l.filter fun x => x.ri ≠ r.ri := by
  unfold AgedAreCached
  rw [hk]
  constructor
  · intro hcond
    refine List.filter_congr fun x hx => ?_
    by_cases hexp : x.expired env m = true
    · obtain ⟨k, hk, hkx⟩ := hcond x hx hexp
      rw [List.mem_singleton.mp hk, hnr] at hkx
      simp [hexp, hkx]
    · have hne : x.ri ≠ r.ri := fun he => hexp (List.inj_on_of_nodup_map hc.nodup hx hr he ▸ hold)
      simp [hexp, hne]
  · intro heq x hx hexp
    refine ⟨n, List.mem_singleton_self n, ?_⟩
    by_contra hne
    have hx' : x ∈ fresh env m l := by
      rw [heq]
      exact List.mem_filter.mpr ⟨hx, by simpa using fun he => hne (hnr.trans he.symm)⟩
    rw [fresh, List.mem_filter, hexp] at hx'
    cases hx'.2

/-- The container counts one instance less. -/
theorem countsRows_freed {o : Obj} {r : Row} (h : Stocked s c ri l) (hc : CachedOnce s c l) (hn : n ∈ cachedCins s c)
    (hr : r ∈ l) (hnr : n.ri = r.ri) (hncs : n.obj.get .cs = r.obj.get .cs) (ho : bumpCnt c.obj n.obj (-1) = some o) :
    CountsRows (Server.freeRtnode { s.persist (.inTree c.id) o with
      db := (s.persist (.inTree c.id) o).db.dbDeleteOnem2mResource n } n.id) c ri (l.filter fun x => x.ri ≠ r.ri) := by
  have hperm := Ledger.perm_cons_filter hc.nodup hr
  have hlen := hperm.length_eq
  have hbytes : contentBytes l = r.size + contentBytes (l.filter fun x => x.ri ≠ r.ri) :=
    ((hperm.map Row.size).sum_eq).trans List.sum_cons
  obtain ⟨cs, hcs⟩ : ∃ cs, n.obj.get .cs = some cs := by
    unfold bumpCnt at ho
    simp only [Option.bind_eq_bind, Option.bind_eq_some_iff] at ho
    obtain ⟨-, -, -, -, -, -, cs, hcs, -⟩ := ho
    exact ⟨cs, hcs⟩
  have hsize : cs.valueint = r.size := by
    unfold Row.size
    rw [← hncs, hcs]
    rfl
  have hrest : 0 ≤ contentBytes (l.filter fun x => x.ri ≠ r.ri) :=
    contentBytes_nonneg fun x hx => h.sizes x (List.mem_of_mem_filter hx)
  have hr0 := h.sizes r hr
  obtain ⟨hcount, htotal⟩ := h.range
  rw [List.length_cons] at hlen
  obtain ⟨h1, h2, -⟩ := CntInv.bumpCnt_counts h.cni h.cbs hcs ho ⟨by unfold intMin; omega, by omega⟩
    ⟨by unfold intMin; omega, htotal⟩ ⟨by unfold intMin; omega, by omega⟩
    ⟨by rw [hsize]; unfold intMin; omega, by rw [hsize]; omega⟩
  refine ⟨rows_freed h hc hn hr hnr (get_ri_bumpCnt ho), { c with obj := o }, ?_, ?_, ?_⟩
  · have htree := Server.persist_tree s c.id o
    unfold Server.node? Server.freeRtnode
    dsimp only
    rw [htree]
    exact node?_freed h hc hn
  · rw [show ((l.filter fun x => x.ri ≠ r.ri).length : Int) = l.length + -1 by omega]
    exact h1
  · rw [show contentBytes (l.filter fun x => x.ri ≠ r.ri) = contentBytes l + -1 * cs.valueint by omega]
    exact h2

/-- The age rule takes exactly the instances that are too old, when they are in memory. -/
theorem ageRule_iff (h : Stocked s c ri l) (hc : CachedOnce s c l) (hmia : c.obj.get .mia = some mia)
    (hpos : 0 < mia.valueint) (he : s.expireByMia env (.inTree c.id) c = some s₁) :
    CountsRows s₁ c ri (fresh env mia.valueint l) ↔ AgedAreCached env mia.valueint s c l := by
  rcases expireByMia_cases h hc hmia hpos he with ⟨rfl, hnone⟩ | ⟨n, o, hk, hold, ho, rfl⟩
  · constructor
    · rintro ⟨hrows, -⟩ r hr hexp
      rw [h.rows] at hrows
      have hr' : r ∈ fresh env mia.valueint l := hrows ▸ hr
      rw [fresh, List.mem_filter, hexp] at hr'
      cases hr'.2
    · intro hcond
      -- a row that is too old would be the one in memory, which is not
      have hfresh : fresh env mia.valueint l = l := by
        refine List.filter_eq_self.mpr fun r hr => ?_
        by_contra hexp
        replace hexp : r.expired env mia.valueint = true := by simpa using hexp
        obtain ⟨n, hn, hnr⟩ := hcond r hr hexp
        obtain ⟨q, hq, hnq, -, hct⟩ := hc.stored n hn
        obtain rfl := List.inj_on_of_nodup_map hc.nodup hq hr (hnq.symm.trans hnr)
        have hno := hnone n hn
        rw [tooOld_eq_expired hct, hexp] at hno
        cases hno
      rw [hfresh]
      exact ⟨h.rows, c, Server.node?_eq h.ids h.node, h.cni, h.cbs⟩
  · have hn : n ∈ cachedCins s c := by
      rw [hk]
      exact List.mem_singleton_self n
    obtain ⟨r, hr, hnr, hncs, hct⟩ := hc.stored n hn
    rw [tooOld_eq_expired hct] at hold
    rw [agedAreCached_iff hc hk hr hnr hold]
    have hfreed := countsRows_freed h hc hn hr hnr hncs ho
    constructor
    · rintro ⟨hrows, -⟩
      exact hrows.symm.trans hfreed.rows
    · intro heq
      rw [heq]
      exact hfreed

end

/-! ## Creations -/

/-- After a creation no stored instance of the container is too old, and exactly those that were too old have been removed
and counted out before the limits are looked at. -/
def AgeKept (env : Env) (mia : Int) (s s' : Server) (c : RTNode) (ri : CStr) (l : List Row) : Prop :=
  (∀ r ∈ s'.db.instances .cin ri, r.expired env mia = false) ∧
    ∃ s₁, s.expireByMia env (.inTree c.id) c = some s₁ ∧ CountsRows s₁ c ri (fresh env mia l)

section

variable {env : Env} {req : Req} {s s₁ s' : Server} {c n : RTNode} {ri : CStr} {l : List Row} {mia : Json} {resp : Resp}

/-- Eviction leaves rows of before. -/
theorem deleteCinUnder_sub {o o' : Obj} {db db' : Db} (ho : o.str .ri = some ri)
    (hapart : ∀ r ∈ db, r.ty = .cin → r.ri ≠ some ri) (he : deleteCinUnderCntMniMbs o db = some (o', db')) :
    o'.str .ri = some ri ∧ (∀ r ∈ db'.instances .cin ri, r ∈ db.instances .cin ri) ∧
      ∀ r ∈ db', r.ty = .cin → r.ri ≠ some ri := by
  unfold deleteCinUnderCntMniMbs at he
  simp only [Option.bind_eq_bind, ho, Option.bind_some] at he
  obtain ⟨cni, -, he⟩ := Option.bind_eq_some_iff.mp he
  obtain ⟨cbs, -, he⟩ := Option.bind_eq_some_iff.mp he
  split at he
  · cases he
    exact ⟨ho, fun r hr => hr, hapart⟩
  · obtain ⟨x, hx, he⟩ := Option.bind_eq_some_iff.mp he
    obtain ⟨st, -, he⟩ := Option.bind_eq_some_iff.mp he
    cases he
    have hsub := (leaves_evictRows (K := fun _ => False) (fun _ _ _ _ hf => hf.elim) hx).sub
    have hwrite := fun o : Obj => @instances_dbUpdateResource x.1 o ri (fun r hr => hapart r (hsub r hr)) ri
    refine ⟨?_, fun r hr => ?_, (hwrite _).2⟩
    · rw [← ho]
      refine Obj.str_congr ?_
      show Assoc.get _ _ = _
      rw [Assoc.get_set_ne (by decide), Assoc.get_set_ne (by decide), Assoc.get_set_ne (by decide)]
    · rw [(hwrite _).1, Db.mem_instances] at hr
      exact Db.mem_instances.mpr ⟨hsub r hr.1, hr.2⟩

/-- The age rule leaves rows of before, and the container its identifier. -/
theorem expireByMia_sub (h : Stocked s c ri l) (hc : CachedOnce s c l) (hmia : c.obj.get .mia = some mia)
    (hpos : 0 < mia.valueint) (he : s.expireByMia env (.inTree c.id) c = some s₁) :
    (∀ r ∈ s₁.db, r.ty = .cin → r.ri ≠ some ri) ∧ ∀ c', s₁.node? c.id = some c' → c'.obj.get .ri = c.obj.get .ri := by
  rcases expireByMia_cases h hc hmia hpos he with ⟨rfl, -⟩ | ⟨n, o, hk, -, ho, rfl⟩
  · refine ⟨h.apart, fun c' hc' => ?_⟩
    obtain rfl := Option.some.inj ((Server.node?_eq h.ids h.node).symm.trans hc')
    rfl
  · have hn : n ∈ cachedCins s c := by
      rw [hk]
      exact List.mem_singleton_self n
    have hwrite : (s.persist (.inTree c.id) o).db = s.db.dbUpdateResource o ri := by
      unfold Server.persist
      rw [show o.str .ri = some ri from Obj.str_of_get ((get_ri_bumpCnt ho).trans h.key)]
      rfl
    refine ⟨fun r hr => ?_, fun c' hc' => ?_⟩
    · have hmem := Db.mem_dbDelete hr
      rw [hwrite] at hmem
      exact (instances_dbUpdateResource h.apart ri).2 r hmem
    · unfold Server.node? Server.freeRtnode at hc'
      dsimp only at hc'
      rw [Server.persist_tree] at hc'
      obtain rfl := Option.some.inj ((node?_freed h hc hn).symm.trans hc')
      exact get_ri_bumpCnt ho

theorem dropCnt_riCount (p : Ptr) (o : Obj) (k : Nat) :
    Server.dropCnt { s with riCount := k } p o = (s.dropCnt p o).map fun t => { t with riCount := k } := by
  have hpersist : ∀ o : Obj, Server.persist { s with riCount := k } p o = { s.persist p o with riCount := k } := by
    intro o
    unfold Server.persist Server.assign
    cases p <;> cases o.str .ri <;> rfl
  unfold Server.dropCnt
  rw [show p.deref { s with riCount := k } = p.deref s by cases p <;> rfl]
  cases p.deref s with
  | none => rfl
  | some n =>
    dsimp only
    rw [Option.map_map]
    exact congrArg (fun f => Option.map f _) (funext hpersist)

/-- The age rule does not look at the counter of identifiers. -/
theorem expireByMia_riCount (p : Ptr) (c : RTNode) (k : Nat) :
    Server.expireByMia env { s with riCount := k } p c = (s.expireByMia env p c).map fun t => { t with riCount := k } := by
  have hdrop : ∀ (l : List RTNode) (s : Server), Server.dropExpired p l { s with riCount := k } =
      (Server.dropExpired p l s).map fun t => { t with riCount := k } := by
    intro l
    induction l with
    | nil => exact fun _ => rfl
    | cons n l ih =>
      intro s
      unfold Server.dropExpired
      simp only [dropCnt_riCount, Option.bind_eq_bind, Option.map_bind, Option.bind_map]
      exact Option.bind_congr fun t _ => ih (Server.freeRtnode { t with db := t.db.dbDeleteOnem2mResource n } n.id)
  unfold Server.expireByMia
  split
  · rfl
  · rename_i mia _
    split
    · simp only [Option.bind_eq_bind, Option.map_bind]
      exact Option.bind_congr fun l _ => hdrop l s
    · rfl

/-- The rows counting in leaves are among those the age rule leaves. -/
theorem addCnt_sub {cin : Obj} (h : Stocked s c ri l) (hc : CachedOnce s c l) (hmia : c.obj.get .mia = some mia)
    (hpos : 0 < mia.valueint) (he : s.addCnt env (.inTree c.id) cin = some s') :
    ∃ s₁, s.expireByMia env (.inTree c.id) c = some s₁ ∧
      ∀ r ∈ s'.db.instances .cin ri, r ∈ s₁.db.instances .cin ri := by
  have hnode : (Ptr.inTree c.id).deref s = some c := Server.node?_eq h.ids h.node
  unfold Server.addCnt at he
  simp only [hnode, Option.bind_eq_bind, Option.bind_some, Option.bind_eq_some_iff, Option.pure_def,
    Option.some.injEq] at he
  obtain ⟨s₁, h₁, c₁, hd, o, ho, ⟨o', db⟩, hev, rfl⟩ := he
  obtain ⟨hapart, hkey⟩ := expireByMia_sub h hc hmia hpos h₁
  have hori : o.str .ri = some ri := Obj.str_of_get ((get_ri_bumpCnt ho).trans ((hkey c₁ hd).trans h.key))
  obtain ⟨hori', hsub, hapart'⟩ := deleteCinUnder_sub hori hapart hev
  refine ⟨s₁, h₁, fun r hr => hsub r ?_⟩
  have hwrite : (Server.persist { s₁ with db := db } (.inTree c.id) o').db = db.dbUpdateResource o' ri := by
    unfold Server.persist
    rw [hori']
    rfl
  rwa [hwrite, (instances_dbUpdateResource hapart' ri).1] at hr

/-- The age rule does what it is for exactly when every stored instance that is too old is in memory. -/
theorem ageKept_iff (h : Stocked s c ri l) (hc : CachedOnce s c l) (hmia : c.obj.get .mia = some mia)
    (hpos : 0 < mia.valueint) (hplace : ∀ k ∈ [Attr.pi, .ty, .ct], req.pc.get k = none)
    (hclock : env.now ≠ [] ∧ env.time - env.created env.now ≤ mia.valueint)
    (he : s.createCin env req c = some (s', resp)) (hr : resp.rsc = .created) :
    AgeKept env mia.valueint s s' c ri l ↔ AgedAreCached env mia.valueint s c l := by
  obtain ⟨x, j, n, s₃, r, -, hxty, -, -, hadd, rfl, hty, hpi, -, hct⟩ :=
    createCin_stores h ⟨hplace .pi (by decide), hplace .ty (by decide)⟩ he hr
  obtain ⟨s₂, h₂, hsub⟩ := addCnt_sub (h.riCount n)
    ⟨hc.nodup, hc.single, hc.leaf, hc.other, hc.stored, hc.alone⟩ hmia hpos hadd
  rw [expireByMia_riCount] at h₂
  obtain ⟨s₁, h₁, rfl⟩ := Option.map_eq_some_iff.mp h₂
  have hiff := ageRule_iff h hc hmia hpos h₁
  constructor
  · rintro ⟨-, t, ht, hcounts⟩
    obtain rfl := Option.some.inj (h₁.symm.trans ht)
    exact hiff.mp hcounts
  · intro hcond
    have hcounts := hiff.mpr hcond
    refine ⟨fun q hq => ?_, s₁, h₁, hcounts⟩
    rw [cacheLatest_db _ _ hxty] at hq
    unfold Db.instances at hq
    rw [List.filter_append] at hq
    rcases List.mem_append.mp hq with hq | hq
    · -- one of before, which the age rule has left
      have hq' : q ∈ s₁.db.instances .cin ri := hsub q hq
      rw [hcounts.rows, fresh, List.mem_filter] at hq'
      simpa using hq'.2
    · obtain rfl := List.mem_singleton.mp (List.mem_of_mem_filter hq)
      unfold Row.expired
      rw [hct (hplace .ct (by decide)) hclock.1]
      exact decide_eq_false (by simpa using hclock.2)

end

/-! ## Two containers with old instances -/

/-- A hundred seconds after the instances were created. -/
def later : Env where
  now := "20240101T000140".toList
  expireAt := "20250101T000140".toList
  time := 100
  created := fun ct => if ct = "20240101T000000".toList then 0 else 100
  remoteAnnc := fun _ => none

/-- A container whose instances may be ten seconds old. -/
def agedNode (cni cbs : Int) : RTNode := { boxNode 5 cni cbs with obj := (boxNode 5 cni cbs).obj ++ [(.mia, .int 10)] }

def agedRow (ri con : String) : Row :=
  { boxRow ri con "20240101T000000" with obj := (boxRow ri con "20240101T000000").obj ++ [(.ct, .str "20240101T000000".toList)] }

/-- The node of the latest instance. -/
def latestNode (r : Row) : RTNode where
  id := 1
  ty := .cin
  rn := "la".toList
  uri := r.uri
  obj := r.obj
  memberOf := []
  subs := []
  subCnt := 0

def agedServer (rows : List Row) (latest : Row) : Server where
  tree := .node (agedNode rows.length (contentBytes rows)) (.node (latestNode latest) .nil .nil) .nil
  csrList := []
  db := rows
  nextId := 2
  riCount := 1

theorem stocked_aged {l : List Row} {latest : Row}
    (hl : ∀ r ∈ l, r.ty = .cin ∧ r.pi = some "3-1".toList ∧ r.ri ≠ none ∧ r.obj.str .rn ≠ none ∧
      r.ri ≠ some "3-1".toList)
    (hsizes : ∀ r ∈ l, 0 ≤ r.size) (hrange : l.length < intMax ∧ contentBytes l ≤ intMax) :
    Stocked (agedServer l latest) (agedNode l.length (contentBytes l)) "3-1".toList l := by
  have hbox := @stocked_box 5 l hl hsizes hrange
  refine ⟨?_, ?_, List.mem_cons_self, rfl, hbox.key_ne, hbox.rows, rfl, rfl, hsizes, hrange, hbox.named, hbox.apart⟩
  · show ([0, 1] : List Nat).Nodup
    decide
  · intro n hn
    have hn' : n = agedNode l.length (contentBytes l) ∨ n = latestNode latest := by
      simpa [agedServer, Forest.nodes] using hn
    rcases hn' with rfl | rfl
    · exact Nat.zero_lt_two
    · exact Nat.one_lt_two

theorem cachedOnce_aged {l : List Row} {latest : Row} (hmem : latest ∈ l) (hnodup : (l.map Row.ri).Nodup)
    (halone : ∀ r ∈ l, like (latest.uri ++ ['/', '%']) r.uri = true → r.ri = latest.ri) :
    CachedOnce (agedServer l latest) (agedNode l.length (contentBytes l)) l := by
  have hcached : cachedCins (agedServer l latest) (agedNode l.length (contentBytes l)) = [latestNode latest] := rfl
  refine ⟨hnodup, ?_, ?_, (by decide : ResourceType.cnt ≠ .cin), ?_, ?_⟩
  · rw [hcached]
    exact le_rfl
  · intro n k hk hty
    have hk' : (n = agedNode l.length (contentBytes l) ∧ k = .node (latestNode latest) .nil .nil) ∨
        (n = latestNode latest ∧ k = .nil) := by
      simpa [agedServer, Forest.cells] using hk
    rcases hk' with ⟨rfl, -⟩ | ⟨-, rfl⟩
    · cases hty
    · rfl
  · rw [hcached]
    intro n hn
    rw [List.mem_singleton.mp hn]
    exact ⟨latest, hmem, rfl, rfl, rfl⟩
  · rw [hcached]
    intro n hn
    rw [List.mem_singleton.mp hn]
    exact halone

/-- A container whose only instance is too old. -/
theorem ageKept_iff_single : ∃ s' resp, (agedServer [agedRow "4-1" "abc"] (agedRow "4-1" "abc")).createCin later newCin
    (agedNode 1 3) = some (s', resp) ∧ AgeKept later 10 (agedServer [agedRow "4-1" "abc"] (agedRow "4-1" "abc")) s'
      (agedNode 1 3) "3-1".toList [agedRow "4-1" "abc"] := by
  have hrun : ((agedServer [agedRow "4-1" "abc"] (agedRow "4-1" "abc")).createCin later newCin (agedNode 1 3)).any
      (fun x => decide (x.2.rsc = .created)) = true := by decide +kernel
  obtain ⟨⟨s', resp⟩, he, hr⟩ := (Option.any_eq_true _ _).mp hrun
  have hs : Stocked (agedServer [agedRow "4-1" "abc"] (agedRow "4-1" "abc")) (agedNode 1 3) "3-1".toList
      [agedRow "4-1" "abc"] := stocked_aged (by decide) (by decide +kernel) (by decide +kernel)
  have hc : CachedOnce (agedServer [agedRow "4-1" "abc"] (agedRow "4-1" "abc")) (agedNode 1 3) [agedRow "4-1" "abc"] :=
    cachedOnce_aged (List.mem_singleton_self _) (by decide) (by decide +kernel)
  have hmia : (agedNode 1 3).obj.get .mia = some (.int 10) := rfl
  exact ⟨s', resp, he, (ageKept_iff hs hc hmia (by decide +kernel) (by decide) (by decide +kernel) he
    (of_decide_eq_true hr)).mpr (by decide +kernel)⟩

/-- Of two instances that are too old the older one stays: it is not in memory. -/
theorem not_ageKept_two : ¬ ∀ env req s s' c ri l mia resp, Stocked s c ri l → CachedOnce s c l →
    c.obj.get .mia = some mia → 0 < mia.valueint → s.createCin env req c = some (s', resp) → resp.rsc = .created →
      AgeKept env mia.valueint s s' c ri l := by
  intro h
  have hrun : ((agedServer [agedRow "4-1" "abc", agedRow "4-2" "d"] (agedRow "4-2" "d")).createCin later newCin
      (agedNode 2 4)).any (fun x => decide (x.2.rsc = .created ∧
        ∃ r ∈ x.1.db.instances .cin "3-1".toList, r.expired later (Json.int 10).valueint = true)) = true := by decide +kernel
  obtain ⟨⟨s', resp⟩, he, hx⟩ := (Option.any_eq_true _ _).mp hrun
  obtain ⟨hr, r, hmem, hexp⟩ := of_decide_eq_true hx
  have hs : Stocked (agedServer [agedRow "4-1" "abc", agedRow "4-2" "d"] (agedRow "4-2" "d")) (agedNode 2 4)
      "3-1".toList [agedRow "4-1" "abc", agedRow "4-2" "d"] := stocked_aged (by decide) (by decide +kernel) (by decide +kernel)
  have hc : CachedOnce (agedServer [agedRow "4-1" "abc", agedRow "4-2" "d"] (agedRow "4-2" "d")) (agedNode 2 4)
      [agedRow "4-1" "abc", agedRow "4-2" "d"] := cachedOnce_aged (by simp) (by decide) (by decide +kernel)
  have hkept := (h _ _ _ _ _ _ _ (.int 10) _ hs hc rfl (by decide +kernel) he hr).1 r hmem
  rw [hexp] at hkept
  cases hkept

end TinyIoT
