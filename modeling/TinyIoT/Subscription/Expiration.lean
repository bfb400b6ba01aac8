/-
The expiration counter of a subscription: `notify_via_sub` counts `exc` down with every notification, and removes the
subscription with the one that takes it to zero, while the list it goes along is that of the subscriptions of one
resource. No removal on the way keeps another subscription from its notification.

A notification is a call of `notify_to_nu`; what the targets in `nu` answer is left out, and so are the representation in
it and the one a removed subscription sends to its `su`.
-/
import TinyIoT.Lib.Reach
import TinyIoT.Server.Resolve
import TinyIoT.Server.Spared

namespace TinyIoT

namespace Server

/-! ## The pass -/

/-- The event fits the subscription at this address. -/
def hears (req : Req) (ty : ResourceType) (net : Int) (s : Server) (i : Nat) : Bool :=
  (s.node? i).any fun sub => isAptEnc req ty sub && subHasNet sub net

/-- The loop of `notify_via_sub`, with the subscriptions it calls `notify_to_nu` for. -/
def notifySubs (now : CStr) (req : Req) (ty : ResourceType) (net : Int) (s : Server) (subs : List Nat) : Server × List Nat :=
  subs.foldl (fun x i => (notifySub now req ty net x.1 i, if hears req ty net x.1 i then x.2 ++ [i] else x.2)) (s, [])

/-- The event type of an operation, and the subscriptions that may hear of it. -/
def listeners (s : Server) (req : Req) (op : Operation) (p : Ptr) : Int × List Nat :=
  let listed := fun n : RTNode => if 0 < n.subCnt then n.subs else []
  match p.deref s with
  | none => (0, [])
  | some n =>
    match op with
    | .create => (3, if req.ty = ResourceType.sub.code then [] else listed n)
    | .update => (1, if req.ty = ResourceType.sub.code then [] else listed n)
    | .delete => (4, if n.ty = .sub then [] else (((p.parent s).deref s).map listed).getD [])
    | _ => (0, [])

/-- `notify_via_sub`. -/
def notifyViaSub (now : CStr) (req : Req) (op : Operation) (s : Server) (p : Ptr) : Server × List Nat :=
  match p.deref s with
  | none => (s, [])
  | some n => notifySubs now req n.ty (s.listeners req op p).1 s (s.listeners req op p).2

/-! ## What a pass leaves alone -/

/-- The lists of subscriptions are of subscriptions, and nothing is below one. -/
structure Subscribed (s : Server) : Prop where
  ids : s.NodupIds
  subs : ∀ n ∈ s.tree.nodes, ∀ i ∈ n.subs, ∀ m ∈ s.tree.nodes, m.id = i → m.ty = .sub
  leaf : ∀ n c, (n, c) ∈ s.tree.cells → n.ty = .sub → c = .nil

variable {s s' s'' : Server} {now : CStr} {req : Req} {ty : ResourceType} {net : Int} {i k : Nat}

theorem Subscribed.of_spares (hs : s.Subscribed) (h : s.Spares s') : s'.Subscribed := by
  refine ⟨h.nodupIds hs.ids, fun n hn i hi m hm hmi => ?_, fun n c hc hty => ?_⟩
  · obtain ⟨n₀, hn₀, hspared⟩ := h.tree.mem hn
    obtain ⟨m₀, hm₀, hspared'⟩ := h.tree.mem hm
    rw [hspared'.ty]
    exact hs.subs n₀ hn₀ i (hspared.subs.subset hi) m₀ hm₀ (hspared'.id.trans hmi)
  · obtain ⟨n₀, c₀, hc₀, hspared, hbelow⟩ := h.tree.cell hc
    rw [hspared.ty] at hty
    rw [hs.leaf n₀ c₀ hc₀ hty] at hbelow
    cases hbelow
    rfl

/-- The node at the address stays, with its expiration counter. -/
def KeepsExc (i : Nat) (s s' : Server) : Prop :=
  ∀ n, s.node? i = some n → ∃ n', s'.node? i = some n' ∧ n'.obj.get .exc = n.obj.get .exc

theorem KeepsExc.refl (i : Nat) (s : Server) : s.KeepsExc i s := fun n hn => ⟨n, hn, rfl⟩

theorem KeepsExc.trans (h : s.KeepsExc i s') (h' : s'.KeepsExc i s'') : s.KeepsExc i s'' := by
  intro n hn
  obtain ⟨n₁, hn₁, h₁⟩ := h n hn
  obtain ⟨n₂, hn₂, h₂⟩ := h' n₁ hn₁
  exact ⟨n₂, hn₂, h₂.trans h₁⟩

theorem keepsExc_of_tree (h : s'.tree = s.tree) : s.KeepsExc i s' := by
  intro n hn
  refine ⟨n, ?_, rfl⟩
  unfold node?
  rwa [h]

theorem keepsExc_modifyNode {f : RTNode → RTNode} (hid : ∀ n, (f n).id = n.id)
    (h : ∀ n, s.node? i = some n → n.id = k → (f n).obj.get .exc = n.obj.get .exc) : s.KeepsExc i (s.modifyNode k f) := by
  intro n hn
  refine ⟨if n.id = k then f n else n, by rw [node?_modifyNode hid, hn, Option.map_some], ?_⟩
  split
  · exact h n hn ‹_›
  · rfl

theorem keepsExc_findRtnode (hs : s.NodupIds) (hlast : s.Lasting now i) (addr : CStr) :
    s.KeepsExc i (s.findRtnode now addr).1 := by
  intro n hn
  obtain ⟨n', hn', o, rfl, ho⟩ := node?_findRtnode hs hlast hn addr
  exact ⟨_, hn', Assoc.get_congr (ho .exc (by decide))⟩

theorem keepsExc_leaveGroup (hs : s.NodupIds) (hlast : s.Lasting now i) (ri grpUri : CStr) :
    s.KeepsExc i (leaveGroup now ri s grpUri) := by
  have hfind := keepsExc_findRtnode hs hlast grpUri
  unfold leaveGroup
  generalize s.findRtnode now grpUri = x at hfind ⊢
  obtain ⟨s₁, p⟩ := x
  dsimp only at hfind ⊢
  split
  · exact hfind
  · rename_i grp hgrp
    have hassign : s₁.KeepsExc i (s₁.assign p (dropMember ri grp.obj)) := by
      unfold assign
      split
      · rename_i j
        refine keepsExc_modifyNode (fun _ => rfl) fun n hn hj => ?_
        obtain ⟨hm, hi⟩ := node?_mem hn
        have heq : some n = some grp := by rw [← hgrp, ← hn, ← hi, hj]; rfl
        cases heq
        exact get_dropMember (by decide) (by decide)
      · exact .refl i s₁
    exact hfind.trans (hassign.trans (keepsExc_of_tree (persist_tree_eq ..)))

theorem keepsExc_leaveGroups (hs : s.NodupIds) (hlast : s.Lasting now i) (n : RTNode) : s.KeepsExc i (s.leaveGroups now n) := by
  unfold leaveGroups
  split
  · exact .refl i s
  · rename_i ri _
    induction n.memberOf generalizing s with
    | nil => exact .refl i s
    | cons g l ih =>
      have hspares : s.Spares (leaveGroup now ri s g) := spares_leaveGroup hs ri g
      exact (keepsExc_leaveGroup hs hlast ri g).trans (ih (hspares.nodupIds hs) (hlast.of_spares hspares))

/-- Freeing another node that has nothing below it. -/
theorem keepsExc_freeRtnode (hs : s.NodupIds) (hik : i ≠ k) (hleaf : ∀ n c, (n, c) ∈ s.tree.cells → n.id = k → c = .nil) :
    s.KeepsExc i (s.freeRtnode k) := by
  intro n hn
  obtain ⟨hm, rfl⟩ := node?_mem hn
  refine ⟨n, ?_, rfl⟩
  have hnodes : (s.freeRtnode k).tree.nodes = s.tree.nodes.filter fun a => !RTNode.hasId k a :=
    Forest.nodes_remove_of_leaf fun a c hc ha => hleaf a c hc (hasId_iff.mp ha)
  refine node?_eq ((spares_freeRtnode s k).nodupIds hs) ?_
  rw [hnodes, List.mem_filter]
  refine ⟨hm, ?_⟩
  rw [Bool.not_eq_true', ← Bool.not_eq_true, hasId_iff]
  exact hik

/-! ## One subscription -/

/-- An exhausted subscription that goes leaves another one, and its counter. -/
theorem keepsExc_removeSub (hs : s.Subscribed) (hlast : s.Lasting now i) (hik : i ≠ k) {sub : RTNode} (hk : sub.id = k)
    (hty : ∀ m ∈ s.tree.nodes, m.id = k → m.ty = .sub) : s.KeepsExc i (s.removeSub now sub) := by
  have hrest : ∀ {t : Server}, s.Spares t → s.KeepsExc i t →
      s.KeepsExc i ({ t.leaveGroups now sub with
        db := (t.leaveGroups now sub).db.dbDeleteOnem2mResource sub }.freeRtnode sub.id) := by
    intro t ht hexc
    have hkept : s.KeepsExc i (t.leaveGroups now sub) := hexc.trans (keepsExc_leaveGroups (ht.nodupIds hs.ids) (hlast.of_spares ht) sub)
    have hspares : s.Spares (t.leaveGroups now sub) := ht.trans (spares_leaveGroups (ht.nodupIds hs.ids) sub)
    generalize t.leaveGroups now sub = u at hkept hspares ⊢
    have hrow : s.KeepsExc i { u with db := u.db.dbDeleteOnem2mResource sub } := hkept.trans (keepsExc_of_tree rfl)
    have hspares' : s.Spares { u with db := u.db.dbDeleteOnem2mResource sub } := hspares.trans (.of_tree rfl rfl)
    refine hrow.trans ?_
    rw [hk]
    refine keepsExc_freeRtnode (hspares'.nodupIds hs.ids) hik fun n c hc hn => ?_
    -- the subscription has nothing below it, now as before
    obtain ⟨n₀, c₀, hc₀, hspared, hbelow⟩ := hspares'.tree.cell hc
    have hm : n₀ ∈ s.tree.nodes := by
      rw [← Forest.cells_map_fst]
      exact List.mem_map_of_mem hc₀
    rw [hs.leaf n₀ c₀ hc₀ (hty n₀ hm (hspared.id.trans hn))] at hbelow
    cases hbelow
    rfl
  unfold removeSub
  dsimp only
  split
  · exact hrest (.refl s) (.refl i s)
  · rename_i j _
    refine hrest (spares_detachSubs s j sub.id) (keepsExc_modifyNode (fun n => ?_) fun n _ _ => ?_)
    · split <;> rfl
    · split <;> rfl

/-- Notifying one subscription leaves another one, and its counter. -/
theorem keepsExc_notifySub (hs : s.Subscribed) (hlast : s.Lasting now i) (hik : i ≠ k) (hty : ∀ m ∈ s.tree.nodes, m.id = k → m.ty = .sub) :
    s.KeepsExc i (notifySub now req ty net s k) := by
  unfold notifySub
  split
  · exact .refl i s
  · rename_i sub hsub
    obtain ⟨hm, hk⟩ := node?_mem hsub
    split
    · exact .refl i s
    · split
      · exact .refl i s
      · rename_i exc _
        dsimp only
        have hset : ∀ o, s.KeepsExc i (s.setObj k o) := fun o =>
          keepsExc_modifyNode (fun _ => rfl) fun n hn hnk => absurd ((node?_mem hn).2.symm.trans hnk) hik
        split
        · have hspares : s.Spares (s.setObj k (sub.obj.set .exc (exc.setIntValue (exc.valueint - 1)))) :=
            spares_assign (p := .inTree k) hs.ids hsub (.set _ _ (by decide))
          refine (hset _).trans (keepsExc_removeSub (hs.of_spares hspares) (hlast.of_spares hspares) hik hk fun m hm hmk => ?_)
          obtain ⟨m₀, hm₀, hspared⟩ := hspares.tree.mem hm
          rw [hspared.ty]
          exact hty m₀ hm₀ (hspared.id.trans hmk)
        · exact (hset _).trans (keepsExc_of_tree (persist_tree_eq ..))

/-- What notifying a subscription with a counter does to it: the last notification takes it away. -/
theorem notifySub_counts {sub : RTNode} {exc : Json} (hsub : s.node? i = some sub) (hexc : sub.obj.get .exc = some exc)
    (hnum : exc.isNumber = true) (hpos : 0 < exc.valueint) (hhears : hears req ty net s i = true) :
    (exc.valueint = 1 → (notifySub now req ty net s i).node? i = none) ∧
      (1 < exc.valueint → ∃ sub' exc', (notifySub now req ty net s i).node? i = some sub' ∧ sub'.obj.get .exc = some exc' ∧
        exc'.isNumber = true ∧ exc'.valueint = exc.valueint - 1) := by
  obtain ⟨-, hi⟩ := node?_mem hsub
  unfold hears at hhears
  rw [hsub, Option.any_some, Bool.and_eq_true] at hhears
  have hskip : ¬ (!isAptEnc req ty sub || !subHasNet sub net) = true := by
    rw [hhears.1, hhears.2]
    decide
  obtain ⟨v, rfl⟩ : ∃ v, exc = .num v := by
    cases exc with
    | num v => exact ⟨v, rfl⟩
    | _ => cases hnum
  have hset : (Json.num v).setIntValue ((Json.num v).valueint - 1) = .int ((Json.num v).valueint - 1) := rfl
  unfold notifySub
  rw [hsub]
  dsimp only
  rw [if_neg hskip, hexc]
  dsimp only
  rw [hset]
  constructor
  · intro h1
    rw [if_pos (by omega)]
    unfold removeSub
    refine Option.eq_none_iff_forall_ne_some.mpr fun n hn => ?_
    obtain ⟨hm, hni⟩ := node?_mem hn
    have hgone := Forest.not_mem_nodes_remove hm
    rw [hi, ← Bool.not_eq_true, hasId_iff] at hgone
    exact hgone hni
  · intro h1
    rw [if_neg (by omega)]
    have hle := Json.valueint_le (.num v)
    have hnode : (s.persist (.inTree i) (sub.obj.set .exc (.int ((Json.num v).valueint - 1)))).node? i =
        some { sub with obj := sub.obj.set .exc (.int ((Json.num v).valueint - 1)) } := by
      unfold node?
      rw [persist_tree]
      have hid : ∀ n : RTNode, { n with obj := sub.obj.set .exc (.int ((Json.num v).valueint - 1)) }.id = n.id := fun _ =>
        rfl
      refine (node?_modifyNode hid).trans ?_
      rw [hsub, Option.map_some, if_pos hi]
    refine ⟨_, _, hnode, Assoc.get_set_self hexc, rfl, ?_⟩
    exact Json.valueint_int (by unfold intMin; omega) (by omega)

/-! ## One pass -/

theorem isAptEnc_congr {sub sub' : RTNode} (h : sub'.obj.get .enc = sub.obj.get .enc) : isAptEnc req ty sub' =
    isAptEnc req ty sub := by
  unfold isAptEnc
  rw [h]

theorem subHasNet_congr {sub sub' : RTNode} (h : sub'.obj.get .enc = sub.obj.get .enc) :
    subHasNet sub' net = subHasNet sub net := by
  unfold subHasNet encNet
  rw [h]

/-- Whether a subscription hears of an event does not depend on the others that were notified before it. -/
theorem hears_notifySub (hs : s.Subscribed) (hlast : s.Lasting now i) (hik : i ≠ k) (hty : ∀ m ∈ s.tree.nodes, m.id = k → m.ty = .sub) :
    hears req ty net (notifySub now req ty net s k) i = hears req ty net s i := by
  have hspares : s.Spares (notifySub now req ty net s k) := spares_notifySub hs.ids req ty net k
  unfold hears
  cases hn : s.node? i with
  | none =>
    cases hn' : (notifySub now req ty net s k).node? i with
    | none => rfl
    | some n' =>
      obtain ⟨n, hsome, -⟩ := hspares.node? hs.ids hn'
      rw [hn] at hsome
      cases hsome
  | some n =>
    obtain ⟨n', hn', -⟩ := keepsExc_notifySub hs hlast hik hty n hn
    obtain ⟨m, hm, hspared⟩ := hspares.node? hs.ids hn'
    rw [hn] at hm
    cases hm
    have henc : n'.obj.get .enc = n.obj.get .enc := Assoc.get_congr (hspared.obj.attrs .enc (by decide))
    rw [hn', Option.any_some, Option.any_some, isAptEnc_congr henc, subHasNet_congr henc]

/-- The subscriptions on a list are subscriptions. -/
def ListsSubs (s : Server) (subs : List Nat) : Prop := ∀ k ∈ subs, ∀ m ∈ s.tree.nodes, m.id = k → m.ty = .sub

theorem ListsSubs.of_spares {subs : List Nat} (h : s.ListsSubs subs) (hspares : s.Spares s') : s'.ListsSubs subs := by
  intro k hk m hm hmk
  obtain ⟨m₀, hm₀, hspared⟩ := hspares.tree.mem hm
  rw [hspared.ty]
  exact h k hk m₀ hm₀ (hspared.id.trans hmk)

theorem listsSubs_of_ok (hs : s.Subscribed) {p : Ptr} (hp : p.Ok s.db) {n : RTNode} (hn : p.deref s = some n) :
    s.ListsSubs n.subs := by
  cases p with
  | null => cases hn
  | inTree j => exact hs.subs n (node?_mem hn).1
  | loose m q =>
    -- a node made from a row has no subscriptions
    cases hn
    obtain ⟨⟨r, -, -, -, hsubs, -⟩, -⟩ := hp
    rw [hsubs]
    exact fun k hk => nomatch hk

theorem listsSubs_listeners (hs : s.Subscribed) (op : Operation) {p : Ptr} (hp : p.Ok s.db) (hq : (p.parent s).Ok s.db) :
    s.ListsSubs (s.listeners req op p).2 := by
  have hlisted : ∀ {q : Ptr} {n : RTNode}, q.Ok s.db → q.deref s =
    some n → s.ListsSubs (if 0 < n.subCnt then n.subs else []) := by
    intro q n hq hn
    split
    · exact listsSubs_of_ok hs hq hn
    · exact fun k hk => nomatch hk
  have hnil : s.ListsSubs [] := fun k hk => nomatch hk
  unfold listeners
  cases hn : p.deref s with
  | none => exact hnil
  | some n =>
    cases op with
    | create =>
      dsimp only
      split
      · exact hnil
      · exact hlisted hp hn
    | update =>
      dsimp only
      split
      · exact hnil
      · exact hlisted hp hn
    | delete =>
      dsimp only
      split
      · exact hnil
      · cases hm : (p.parent s).deref s with
        | none => exact hnil
        | some m => exact hlisted hq hm
    | _ => exact hnil

/-- One step of the loop, from a server and the notifications so far. -/
def notifyStep (now : CStr) (req : Req) (ty : ResourceType) (net : Int) (x : Server × List Nat) (k : Nat) : Server × List Nat :=
  (notifySub now req ty net x.1 k, if hears req ty net x.1 k then x.2 ++ [k] else x.2)

theorem notifySub_deaf (h : hears req ty net s k = false) : notifySub now req ty net s k = s := by
  unfold notifySub
  cases hn : s.node? k with
  | none => rfl
  | some sub =>
    unfold hears at h
    rw [hn, Option.any_some] at h
    dsimp only
    rw [if_pos (by rw [← Bool.not_and, h]; rfl)]

/-- The subscription has had its notifications and is gone, or has a number of them left, and that is its counter. -/
structure Counted (i n : Nat) (x : Server × List Nat) : Prop where
  subscribed : x.1.Subscribed
  count : x.2.count i ≤ n
  gone : x.2.count i = n → x.1.node? i = none
  there : x.2.count i < n → ∃ sub exc, x.1.node? i = some sub ∧ sub.obj.get .exc = some exc ∧ exc.isNumber = true ∧
    exc.valueint = (n - x.2.count i : Nat)

theorem Counted.notifyStep {n : Nat} {x : Server × List Nat} (h : Counted i n x) (hlast : x.1.Lasting now i)
    (hty : ∀ m ∈ x.1.tree.nodes, m.id = k → m.ty = .sub) : Counted i n (notifyStep now req ty net x k) := by
  obtain ⟨s, log⟩ := x
  have hspares : s.Spares (notifySub now req ty net s k) := spares_notifySub h.subscribed.ids req ty net k
  have hsubscribed := h.subscribed.of_spares hspares
  unfold Server.notifyStep
  dsimp only at hty hspares hsubscribed ⊢
  by_cases hik : i = k
  · subst hik
    cases hhears : hears req ty net s i with
    | false =>
      rw [notifySub_deaf hhears, if_neg (by decide)]
      exact h
    | true =>
      rw [if_pos rfl]
      have hlt : log.count i < n := by
        refine lt_of_le_of_ne h.count fun he => ?_
        have hgone := h.gone he
        unfold hears at hhears
        rw [show s.node? i = none from hgone] at hhears
        cases hhears
      obtain ⟨sub, exc, hsub, hexc, hnum, hval⟩ := h.there hlt
      dsimp only at hsub hval
      have hcount : (log ++ [i]).count i = log.count i + 1 := by
        rw [List.count_append, List.count_singleton_self]
      have hpos : 0 < exc.valueint := by omega
      refine ⟨hsubscribed, hcount.trans_le hlt, fun he => ?_, fun hl => ?_⟩
      · replace he : (log ++ [i]).count i = n := he
        have h1 : exc.valueint = 1 := by omega
        exact (notifySub_counts hsub hexc hnum hpos hhears).1 h1
      · replace hl : (log ++ [i]).count i < n := hl
        have h1 : 1 < exc.valueint := by omega
        have hleft : exc.valueint - 1 = (n - (log ++ [i]).count i : Nat) := by omega
        obtain ⟨sub', exc', hsub', hexc', hnum', hval'⟩ := (notifySub_counts hsub hexc hnum hpos hhears).2 h1
        exact ⟨sub', exc', hsub', hexc', hnum', hval'.trans hleft⟩
  · -- another subscription: neither the count nor the counter changes
    have hcount : (if hears req ty net s k then log ++ [k] else log).count i = log.count i := by
      split
      · rw [List.count_append, List.count_singleton, if_neg (by simpa using Ne.symm hik), Nat.add_zero]
      · rfl
    refine ⟨hsubscribed, hcount.trans_le h.count, fun he => ?_, fun hl => ?_⟩
    · have hgone : s.node? i = none := h.gone (hcount.symm.trans he)
      refine Option.eq_none_iff_forall_ne_some.mpr fun n' hn' => ?_
      obtain ⟨m, hm, -⟩ := hspares.node? h.subscribed.ids hn'
      rw [hgone] at hm
      cases hm
    · obtain ⟨sub, exc, hsub, hexc, hnum, hval⟩ := h.there (hcount.symm.trans_lt hl)
      obtain ⟨sub', hsub', hexc'⟩ := keepsExc_notifySub h.subscribed hlast hik hty sub hsub
      exact ⟨sub', exc, hsub', hexc'.trans hexc, hnum, hval.trans (by rw [hcount])⟩

theorem Counted.foldl {n : Nat} {subs : List Nat} {x : Server × List Nat} (h : Counted i n x) (hlast : x.1.Lasting now i)
    (hsubs : x.1.ListsSubs subs) :
    Counted i n (subs.foldl (Server.notifyStep now req ty net) x) := by
  induction subs generalizing x with
  | nil => exact h
  | cons k subs ih =>
    have hspares : x.1.Spares (notifySub now req ty net x.1 k) := spares_notifySub h.subscribed.ids req ty net k
    refine ih (h.notifyStep hlast (hsubs k List.mem_cons_self)) (hlast.of_spares hspares) ?_
    exact ListsSubs.of_spares (fun j hj => hsubs j (List.mem_cons_of_mem _ hj)) hspares

/-- The notifications of a pass come after those before it. -/
theorem foldl_notifyStep (subs : List Nat) (s : Server) (log : List Nat) :
    subs.foldl (notifyStep now req ty net) (s, log) =
      ((notifySubs now req ty net s subs).1, log ++ (notifySubs now req ty net s subs).2) := by
  have hfold : ∀ (subs : List Nat) (s : Server) (log : List Nat), subs.foldl (notifyStep now req ty net) (s, log) =
      ((subs.foldl (notifyStep now req ty net) (s, [])).1, log ++ (subs.foldl (notifyStep now req ty net) (s, [])).2) := by
    intro subs
    induction subs with
    | nil => exact fun s log => by rw [List.foldl_nil, List.foldl_nil, List.append_nil]
    | cons k subs ih =>
      intro s log
      have hstep : ∀ log, notifyStep now req ty net (s, log) k =
          (notifySub now req ty net s k, if hears req ty net s k then log ++ [k] else log) := fun _ => rfl
      rw [List.foldl_cons, List.foldl_cons, hstep, hstep, ih _ (if hears req ty net s k then log ++ [k] else log),
        ih _ (if hears req ty net s k then [] ++ [k] else [])]
      dsimp only
      split
      · rw [List.nil_append, List.append_assoc]
      · rw [List.nil_append]
  exact hfold subs s log

/-! ## Runs -/

/-- The subscription stays as it is, with its counter. -/
structure Quiet (i : Nat) (s s' : Server) : Prop where
  subscribed : s'.Subscribed
  exc : (s'.node? i).map (fun n => n.obj.get .exc) = (s.node? i).map fun n => n.obj.get .exc

/-- One event with its notifications, at a time when neither the subscription nor a resource above it is expired, or a change
between two events. -/
inductive EventStep (i : Nat) : Server × List Nat → Server × List Nat → Prop where
  | event {s : Server} {log : List Nat} {now : CStr} {req : Req} {op : Operation} {p : Ptr} :
    p.Ok s.db → (p.parent s).Ok s.db → s.Lasting now i →
      EventStep i (s, log) ((notifyViaSub now req op s p).1, log ++ (notifyViaSub now req op s p).2)
  | quiet {s s' : Server} {log : List Nat} : s.Quiet i s' → EventStep i (s, log) (s', log)

theorem Counted.eventStep {n : Nat} {x x' : Server × List Nat} (h : Counted i n x) (hstep : EventStep i x x') :
    Counted i n x' := by
  cases hstep with
  | event hp hq hlast =>
    unfold notifyViaSub
    split
    · rw [List.append_nil]
      exact h
    · rw [← foldl_notifyStep]
      exact h.foldl hlast (listsSubs_listeners h.subscribed _ hp hq)
  | @quiet s s' log hquiet =>
    refine ⟨hquiet.subscribed, h.count, fun he => ?_, fun hl => ?_⟩
    · have hmap := hquiet.exc
      rw [show s.node? i = none from h.gone he, Option.map_none, Option.map_eq_none_iff] at hmap
      exact hmap
    · obtain ⟨sub, exc, hsub, hexc, hnum, hval⟩ := h.there hl
      have hmap := hquiet.exc
      rw [show s.node? i = some sub from hsub, Option.map_some, hexc] at hmap
      obtain ⟨sub', hsub', hexc'⟩ := Option.map_eq_some_iff.mp hmap
      exact ⟨sub', exc, hsub', hexc', hnum, hval⟩

/-- A subscription with `exc` gets that many notifications at most over any run of events, creations and updates and
deletions in any order, with whatever else between them that leaves it alone, while neither it nor a resource above it is
expired. It is gone with the last one and not before,
and until then its counter says how many are left. -/
theorem notified_exc_times {s : Server} (hs : s.Subscribed) {sub : RTNode} (hsub : s.node? i = some sub) {exc : Json}
    (hexc : sub.obj.get .exc = some exc) (hnum : exc.isNumber = true) {n : Nat} (hn : exc.valueint = n) (hpos : 0 < n)
    {x : Server × List Nat} (hrun : Reach (· = (s, [])) (EventStep i) x) :
    x.2.count i ≤ n ∧ (x.1.node? i = none ↔ x.2.count i = n) ∧
      ∀ sub', x.1.node? i = some sub' → ∃ exc', sub'.obj.get .exc = some exc' ∧ exc'.valueint =
        (n - x.2.count i : Nat) := by
  have hcounted : Counted i n x := by
    refine hrun.inv ?_ fun x x' h hstep => h.eventStep hstep
    rintro x rfl
    refine ⟨hs, Nat.zero_le n, fun he => absurd he hpos.ne, fun _ => ⟨sub, exc, hsub, hexc, hnum, ?_⟩⟩
    rw [hn, List.count_nil, Nat.sub_zero]
  refine ⟨hcounted.count, ⟨fun hnone => ?_, hcounted.gone⟩, fun sub' hsub' => ?_⟩
  · by_contra hne
    obtain ⟨sub', exc', hsub', -⟩ := hcounted.there (lt_of_le_of_ne hcounted.count hne)
    rw [hnone] at hsub'
    cases hsub'
  · have hlt : x.2.count i < n := by
      refine lt_of_le_of_ne hcounted.count fun he => ?_
      rw [hcounted.gone he] at hsub'
      cases hsub'
    obtain ⟨sub'', exc', hsub'', hexc', -, hval⟩ := hcounted.there hlt
    obtain rfl := Option.some.inj (hsub'.symm.trans hsub'')
    exact ⟨exc', hexc', hval⟩

/-- A container and a subscription to new children, for two notifications. -/
def twoNotifications : Server where
  tree := .node { id := 0, ty := .cnt, rn := [], uri := [], obj := [], subs := [1], subCnt := 1 }
    (.node { id := 1, ty := .sub, rn := [], uri := [], obj := [(.ri, .str ['s']), (.enc, .obj [(.net, .arr [.int 3])]),
      (.exc, .int 2)] } .nil .nil) .nil
  csrList := []
  db := []
  nextId := 2
  riCount := 0

theorem subscribed_twoNotifications : twoNotifications.Subscribed := by
  refine ⟨by decide, by decide, fun n c hc hty => ?_⟩
  rcases List.mem_cons.mp hc with heq | hc
  · cases heq
    cases hty
  · rcases List.mem_cons.mp hc with heq | hc
    · cases heq
      rfl
    · cases hc

/-- A container is created below. -/
def creation : Req := ⟨.create, [], [], 3, 3, none, [], none⟩

/-- What is left after a number of creations in the container, with the notifications. -/
def afterCreations : Nat → Server × List Nat
  | 0 => (twoNotifications, [])
  | n + 1 => ((notifyViaSub [] creation .create (afterCreations n).1 (.inTree 0)).1,
      (afterCreations n).2 ++ (notifyViaSub [] creation .create (afterCreations n).1 (.inTree 0)).2)

theorem ok_parent_inTree (s : Server) (j : Nat) : ((Ptr.inTree j).parent s).Ok s.db := Ptr.parent_ok fun _ _ h => nomatch h

theorem notified_exc_times_two : (afterCreations 3).1.node? 1 = none ∧ (afterCreations 3).2 = [1, 1] := by
  have hlast : ∀ n < 3, (afterCreations n).1.Lasting [] 1 := by decide +kernel
  have hrun : ∀ n ≤ 3, Reach (· = (twoNotifications, [])) (EventStep 1) (afterCreations n) := by
    intro n hn
    induction n with
    | zero => exact .start rfl
    | succ n ih => exact (ih (by omega)).next (.event trivial (ok_parent_inTree _ 0) (hlast n hn))
  have hlog : (afterCreations 3).2 = [1, 1] := by decide +kernel
  have hexc : ∃ sub, twoNotifications.node? 1 = some sub ∧ sub.obj.get .exc = some (.int 2) := ⟨_, rfl, rfl⟩
  obtain ⟨sub, hsub, hexc⟩ := hexc
  obtain ⟨-, hgone, -⟩ := notified_exc_times subscribed_twoNotifications hsub hexc rfl (n := 2) (by decide) (by decide)
    (hrun 3 le_rfl)
  refine ⟨hgone.mpr ?_, hlog⟩
  rw [hlog]
  rfl

/-! ## Who is notified -/

/-- The loop notifies the subscriptions of the list that the event fits as the pass begins, whichever of the others are
exhausted and removed on the way. -/
theorem notifySubs_log (hs : s.Subscribed) {subs : List Nat} (hsubs : s.ListsSubs subs)
    (hlast : ∀ k ∈ subs, s.Lasting now k) (hnodup : subs.Nodup) :
    (notifySubs now req ty net s subs).2 = subs.filter fun k => hears req ty net s k := by
  induction subs generalizing s with
  | nil => rfl
  | cons k subs ih =>
    obtain ⟨hk, hnodup⟩ := List.nodup_cons.mp hnodup
    have hspares : s.Spares (notifySub now req ty net s k) := spares_notifySub hs.ids req ty net k
    have hty := hsubs k List.mem_cons_self
    have hrest : (notifySubs now req ty net (notifySub now req ty net s k) subs).2 = subs.filter fun j => hears req ty net s j := by
      refine (ih (hs.of_spares hspares) (ListsSubs.of_spares (fun j hj => hsubs j (List.mem_cons_of_mem _ hj)) hspares)
        (fun j hj => (hlast j (List.mem_cons_of_mem _ hj)).of_spares hspares) hnodup).trans (List.filter_congr fun j hj => ?_)
      exact hears_notifySub hs (hlast j (List.mem_cons_of_mem _ hj)) (fun he => hk (he ▸ hj)) hty
    have hfold : (notifySubs now req ty net s (k :: subs)).2 =
        (if hears req ty net s k then [k] else []) ++ (notifySubs now req ty net (notifySub now req ty net s k) subs).2 :=
      congrArg Prod.snd (foldl_notifyStep subs (notifySub now req ty net s k) (if hears req ty net s k then [] ++ [k] else []))
    rw [hfold, hrest, List.filter_cons]
    split <;> rfl

/-- A creation, an update or a deletion notifies, in their order and once each, the subscriptions of the resource, or of
the parent of the deleted one, that the event fits before the first of them is notified, while neither these nor a resource
above them is expired. -/
theorem notifyViaSub_log (hs : s.Subscribed) {op : Operation} {p : Ptr} (hp : p.Ok s.db) (hq : (p.parent s).Ok s.db)
    {n : RTNode} (hn : p.deref s = some n) (hlast : ∀ k ∈ (s.listeners req op p).2, s.Lasting now k) (hnodup : (s.listeners req op p).2.Nodup) :
    (notifyViaSub now req op s p).2 =
      (s.listeners req op p).2.filter fun k => hears req n.ty (s.listeners req op p).1 s k := by
  unfold notifyViaSub
  rw [hn]
  exact notifySubs_log hs (listsSubs_listeners hs op hp hq) hlast hnodup

theorem notifyViaSub_log_two : (notifyViaSub [] creation .create twoNotifications (.inTree 0)).2 =
    [1].filter fun k => hears creation .cnt 3 twoNotifications k := by
  obtain ⟨n, hn, hty⟩ : ∃ n, (Ptr.inTree 0).deref twoNotifications = some n ∧ n.ty = .cnt := ⟨_, rfl, rfl⟩
  have hlisteners : twoNotifications.listeners creation .create (.inTree 0) = (3, [1]) := by decide +kernel
  have hnodup : (twoNotifications.listeners creation .create (.inTree 0)).2.Nodup := by
    rw [hlisteners]
    decide
  have hlast : ∀ k ∈ (twoNotifications.listeners creation .create (.inTree 0)).2, twoNotifications.Lasting [] k := by
    rw [hlisteners]
    decide
  rw [notifyViaSub_log subscribed_twoNotifications (p := .inTree 0) trivial (ok_parent_inTree _ 0) hn hlast hnodup,
    hlisteners, hty]

end Server

end TinyIoT
