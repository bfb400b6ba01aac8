/-
The custom attributes of a flexContainer through the handlers: what its object has in memory, what the column of
its row holds, and what the requests have asked for.
-/
import TinyIoT.FlexContainer.Columns

namespace TinyIoT

/-! ## The invariant -/

/-- A flexContainer has in both places the custom attributes asked for. -/
structure Carries (db : Db) (n : RTNode) (want : Obj) (ri : CStr) : Prop where
  named : n.obj.get .ri = some (.str ri)
  /-- Instances have identifiers with another prefix. -/
  mark : ri.head? = some '2'
  column : HoldsCustom db ri want
  object : ∀ k, Assoc.entries (customAttributes n.obj) k = Assoc.entries want k

/-- The flexContainers of the tree, with what was asked of the node of each address. -/
structure AttrInv (s : Server) (asked : Nat → Obj) : Prop where
  ids : s.NodupIds
  below : ∀ n ∈ s.tree.nodes, n.id < s.nextId
  carried : ∀ n ∈ s.tree.nodes, n.ty = .fcnt → ∃ ri, Carries s.db n (asked n.id) ri
  apart : ∀ n ∈ s.tree.nodes, ∀ m ∈ s.tree.nodes, n.ty = .fcnt → m.ty = .fcnt → n.ri = m.ri → n.id = m.id

/-- The flexContainers of `s'` are some of those of `s`. -/
def FcntsFrom (s s' : Server) : Prop :=
  ∀ n ∈ s'.tree.nodes, n.ty = .fcnt → ∃ m ∈ s.tree.nodes, m.ty = .fcnt ∧ m.id = n.id ∧ m.ri = n.ri

theorem FcntsFrom.refl (s : Server) : FcntsFrom s s := fun n hn hty => ⟨n, hn, hty, rfl, rfl⟩

theorem FcntsFrom.trans {s s₁ s' : Server} (h : FcntsFrom s s₁) (h' : FcntsFrom s₁ s') : FcntsFrom s s' := by
  intro n hn hty
  obtain ⟨m, hm, hmty, hmid, hmri⟩ := h' n hn hty
  obtain ⟨l, hl, hlty, hlid, hlri⟩ := h m hm hmty
  exact ⟨l, hl, hlty, hlid.trans hmid, hlri.trans hmri⟩

/-- A step that keeps the invariant and adds no flexContainer. -/
structure AttrKept (asked : Nat → Obj) (s s' : Server) : Prop where
  inv : AttrInv s' asked
  kin : FcntsFrom s s'

theorem AttrKept.trans {asked : Nat → Obj} {s s₁ s' : Server} (h : AttrKept asked s s₁) (h' : AttrKept asked s₁ s') :
    AttrKept asked s s' :=
  ⟨h'.inv, h.kin.trans h'.kin⟩

/-- A row of a flexContainer in the tree. -/
def Server.ofFcnt (s : Server) (r : Row) : Prop := ∃ c ∈ s.tree.nodes, c.ty = .fcnt ∧ r.ri = c.ri

instance (s : Server) (r : Row) : Decidable (s.ofFcnt r) :=
  inferInstanceAs (Decidable (∃ c ∈ s.tree.nodes, _))

namespace AttrInv

variable {s s' : Server} {asked : Nat → Obj}

theorem frame (h : AttrInv s asked) (hids : s'.NodupIds) (hbelow : ∀ n ∈ s'.tree.nodes, n.id < s'.nextId)
    (hnodes : ∀ n ∈ s'.tree.nodes, n.ty = .fcnt → ∃ m ∈ s.tree.nodes, m.ty = .fcnt ∧ m.id = n.id ∧
      n.obj.get .ri = m.obj.get .ri ∧ ∀ k, Assoc.entries (customAttributes n.obj) k = Assoc.entries (customAttributes m.obj) k)
    (hdb : ∀ m ∈ s.tree.nodes, m.ty = .fcnt → ∀ ri want, m.ri = some ri → ri.head? = some '2' → HoldsCustom s.db ri want →
      HoldsCustom s'.db ri want) : AttrKept asked s s' := by
  have hfrom : FcntsFrom s s' := by
    intro n hn hty
    obtain ⟨m, hm, hmty, hid, hri, -⟩ := hnodes n hn hty
    exact ⟨m, hm, hmty, hid, (Obj.str_congr hri).symm⟩
  refine ⟨⟨hids, hbelow, fun n hn hty => ?_, fun n hn m hm hnty hmty hri => ?_⟩, hfrom⟩
  · obtain ⟨m, hm, hmty, hid, hri, hobj⟩ := hnodes n hn hty
    obtain ⟨ri, hc⟩ := h.carried m hm hmty
    rw [hid] at hc
    exact ⟨ri, hri.trans hc.named, hc.mark, hdb m hm hmty ri _ (Obj.str_of_get hc.named) hc.mark hc.column,
      fun k => (hobj k).trans (hc.object k)⟩
  · obtain ⟨n₀, hn₀, hnty₀, hnid, hnri⟩ := hfrom n hn hnty
    obtain ⟨m₀, hm₀, hmty₀, hmid, hmri⟩ := hfrom m hm hmty
    rw [← hnid, ← hmid]
    exact h.apart n₀ hn₀ m₀ hm₀ hnty₀ hmty₀ (hnri.trans (hri.trans hmri.symm))

theorem refl (h : AttrInv s asked) : AttrKept asked s s := ⟨h, FcntsFrom.refl s⟩

/-- Nodes go, the rows of flexContainers stay. -/
theorem shrink (h : AttrInv s asked) (ht : s'.tree.nodes.Sublist s.tree.nodes) (hn : s'.nextId = s.nextId)
    (hdb : Leaves s.ofFcnt s.db s'.db) : AttrKept asked s s' := by
  refine h.frame (h.ids.sublist (ht.map _)) (fun n hm => hn ▸ h.below n (ht.subset hm))
    (fun n hm hty => ⟨n, ht.subset hm, hty, rfl, rfl, fun _ => rfl⟩) fun m hm hty ri want hri _ hold => ?_
  exact hold.leaves (fun r _ hr => ⟨m, hm, hty, hr.trans hri.symm⟩) hdb

/-- Rows are written, the nodes stay. -/
theorem setDb (h : AttrInv s asked) {db : Db} (hdb : ∀ m ∈ s.tree.nodes, m.ty = .fcnt → ∀ ri want, m.ri = some ri →
    ri.head? = some '2' → HoldsCustom s.db ri want → HoldsCustom db ri want) : AttrKept asked s { s with db := db } :=
  h.frame h.ids h.below (fun n hn hty => ⟨n, hn, hty, rfl, rfl, fun _ => rfl⟩) hdb

theorem ri_ne_nil {ri : CStr} (h : ri.head? = some '2') : ri ≠ [] := by
  rintro rfl
  cases h

/-- `db_update_resource` of attributes with a column. -/
theorem updateRow (h : AttrInv s asked) {o : Obj} {ri : CStr} (ho : Addresses o ri) (hc : o.get customColumn = none) :
    AttrKept asked s { s with db := s.db.dbUpdateResource o ri } :=
  h.setDb fun _ _ _ _ _ _ hmark hold => hold.update (ri_ne_nil hmark) ho hc

/-- An object of the same identifier and custom attributes is assigned. -/
theorem setObj (h : AttrInv s asked) {i : Nat} {o : Obj} (ho : ∀ n ∈ s.tree.nodes, n.id = i → n.ty = .fcnt →
    o.get .ri = n.obj.get .ri ∧ ∀ k, Assoc.entries (customAttributes o) k = Assoc.entries (customAttributes n.obj) k) :
    AttrKept asked s (s.setObj i o) := by
  have hnodes : ∀ n ∈ (s.setObj i o).tree.nodes, ∃ m ∈ s.tree.nodes, n = if m.id = i then { m with obj := o } else m := by
    intro n hn
    rw [Server.setObj, Server.nodes_modifyNode] at hn
    obtain ⟨m, hm, rfl⟩ := List.mem_map.mp hn
    exact ⟨m, hm, rfl⟩
  refine h.frame ?_ (fun n hn => ?_) (fun n hn hty => ?_) fun _ _ _ _ _ _ _ hold => hold
  · exact h.ids.modify (f := fun n => { n with obj := o }) (fun _ _ _ => rfl) rfl
  · obtain ⟨m, hm, rfl⟩ := hnodes n hn
    rw [show (if m.id = i then { m with obj := o } else m).id = m.id by split <;> rfl]
    exact h.below m hm
  · obtain ⟨m, hm, rfl⟩ := hnodes n hn
    by_cases hid : m.id = i
    · rw [if_pos hid] at hty ⊢
      exact ⟨m, hm, hty, rfl, ho m hm hid hty⟩
    · rw [if_neg hid] at hty ⊢
      exact ⟨m, hm, hty, rfl, rfl, fun _ => rfl⟩

/-- A node that is no flexContainer is linked, with a row of its own. -/
theorem graft (h : AttrInv s asked) {i : Nat} {x : RTNode} (hid : x.id = s.nextId) (hty : x.ty ≠ .fcnt)
    (ht : s'.tree = s.tree.graft (RTNode.hasId i) (insertChild x)) (hn : s'.nextId = s.nextId + 1)
    (hdb : ∀ m ∈ s.tree.nodes, m.ty = .fcnt → ∀ ri want, m.ri = some ri → ri.head? = some '2' → HoldsCustom s.db ri want →
      HoldsCustom s'.db ri want) : AttrKept asked s s' := by
  obtain ⟨hids, hnodes⟩ := Server.mem_nodes_graft h.ids (fun n hm => by have := h.below n hm; omega) ht
  refine h.frame hids (fun n hm => ?_) (fun n hm hnty => ?_) hdb
  · rcases hnodes n hm with rfl | hm
    · omega
    · have := h.below n hm
      omega
  · rcases hnodes n hm with rfl | hm
    · exact absurd hnty hty
    · exact ⟨n, hm, hnty, rfl, rfl, fun _ => rfl⟩

/-- The identifier of an instance is no flexContainer's. -/
theorem mark_fcin (ct : CStr) (n : Nat) {ri : CStr} (h : ri.head? = some '2') : (resourceIdentifier .fcin ct n).1 ≠ ri := by
  rintro rfl
  have h5 : (resourceIdentifier .fcin ct n).1.head? = some '5' := rfl
  exact absurd (h5.symm.trans h) (by decide)

/-- The row of a new instance, with its custom attributes. -/
theorem instanceRow {db db' : Db} {ct uri : CStr} {n : Nat} (h : InstanceRow db (resourceIdentifier .fcin ct n).1 uri db') :
    (∀ ri want, ri.head? = some '2' → HoldsCustom db ri want → HoldsCustom db' ri want) ∧
      ∀ r ∈ db', ∀ ri, r.ri = some ri → ri.head? = some '2' → ∃ q ∈ db, q.ri = r.ri ∧ q.uri = r.uri := by
  obtain ⟨q, hq, -, -, hdb⟩ := h
  have hne : ∀ {ri : CStr}, ri.head? = some '2' → q.ri ≠ some ri := fun hm he => mark_fcin ct n hm (Option.some.inj (hq.symm.trans he))
  have hsnoc : ∀ r ∈ db ++ [q], ∀ ri, r.ri = some ri → ri.head? = some '2' → r ∈ db := by
    intro r hr ri hri hm
    rcases List.mem_append.mp hr with hr | hr
    · exact hr
    · rw [List.mem_singleton.mp hr] at hri
      exact absurd hri (hne hm)
  rcases hdb with rfl | ⟨b, custom, rfl⟩
  · exact ⟨fun ri want hm hold => hold.snoc (hne hm), fun r hr ri hri hm => ⟨r, hsnoc r hr ri hri hm, rfl, rfl⟩⟩
  · refine ⟨fun ri want hm hold => (hold.snoc (hne hm)).storeOther (mark_fcin ct n hm), fun r hr ri hri hm => ?_⟩
    unfold Db.dbStoreFcntCustomAttributes at hr
    obtain ⟨p, hp, rfl⟩ := List.mem_map.mp hr
    have hsame : (if p.ri = some (resourceIdentifier .fcin ct n).1 ∧ (p.ty = .fcnt ∨ p.ty = .fcin) then
        { p with obj := Assoc.add (Assoc.drop p.obj customColumn) customColumn (.obj (b.document custom)) } else p).ri = p.ri := by
      split
      · refine Obj.str_congr ?_
        show Assoc.get _ _ = Assoc.get _ _
        rw [Assoc.get_add_ne (by decide), Assoc.get_drop, if_neg (by decide)]
      · rfl
    rw [hsame] at hri
    exact ⟨p, hsnoc p hp ri hri hm, hsame.symm, by split <;> rfl⟩

/-- `add_flexcontainer_instance`. -/
theorem addInstance (h : AttrInv s asked) {e : FcntEnv} {req : Req} {n : RTNode} {isCreate b : Bool}
    (he : s.addFlexcontainerInstance e req n isCreate = some (s', b)) : AttrKept asked s s' := by
  rcases addFlexcontainerInstance_some he with ⟨-, ht, hdb, hn, -⟩ | ⟨-, st, x, -, hid, hty, -, -, -, -, -, -, ht, hn, -, hrow⟩
  · refine h.shrink (by rw [ht]) hn ⟨fun r hr => hdb ▸ hr, fun r hr _ => hdb ▸ hr⟩
  · exact h.graft hid (by rw [hty]; decide) ht hn fun _ _ _ ri want _ hm => (instanceRow hrow).1 ri want hm

/-- Instances are removed whose DELETE statements spare the rows of the flexContainers. -/
theorem removes (h : AttrInv s asked) {i : Nat} (hr : s.Removes i s')
    (hs : ∀ c ∈ s.fcins i, Avoids s.ofFcnt s.db c.uri c.ri) : AttrKept asked s s' := by
  obtain ⟨l, hl, rfl⟩ := hr
  have hdb : ∀ (s₁ : Server) (l : List RTNode), (∀ c ∈ l, Avoids s.ofFcnt s₁.db c.uri c.ri) →
      (l.foldl Server.removeFcin s₁).tree.nodes.Sublist s₁.tree.nodes ∧ (l.foldl Server.removeFcin s₁).nextId = s₁.nextId ∧
        Leaves s.ofFcnt s₁.db (l.foldl Server.removeFcin s₁).db := by
    intro s₁ l
    induction l generalizing s₁ with
    | nil => exact fun _ => ⟨List.Sublist.refl _, rfl, fun _ hr => hr, fun _ hr _ => hr⟩
    | cons c l ih =>
      intro hav
      have h₁ : Leaves s.ofFcnt s₁.db (s₁.removeFcin c).db := leaves_dbDelete (hav c List.mem_cons_self)
      obtain ⟨ht, hn, hl⟩ := ih (s₁.removeFcin c) fun d hd r hr hk => hav d (List.mem_cons_of_mem _ hd) r (h₁.sub r hr) hk
      exact ⟨ht.trans (Forest.nodes_remove_sublist _ _), hn, h₁.trans hl⟩
  obtain ⟨ht, hn, hleaves⟩ := hdb s l fun c hc => hs c (hl c hc)
  exact h.shrink ht hn hleaves

/-- The custom attributes of one flexContainer become others, in its object and in its row. -/
theorem replace (h : AttrInv s asked) {i : Nat} {ri : CStr} {o want : Obj}
    (hsep : ∀ m ∈ s.tree.nodes, m.ty = .fcnt → (m.id = i ↔ m.ri = some ri)) (hri : o.get .ri = some (.str ri))
    (hobj : ∀ k, Assoc.entries (customAttributes o) k = Assoc.entries want k)
    (ht : s'.tree = (s.setObj i o).tree) (hn : s'.nextId = s.nextId)
    (hown : ri.head? = some '2' → HoldsCustom s.db ri (asked i) → HoldsCustom s'.db ri want)
    (hdb : ∀ x w, x ≠ ri → x.head? = some '2' → HoldsCustom s.db x w → HoldsCustom s'.db x w) :
    AttrInv s' (Function.update asked i want) := by
  have hnodes : ∀ n ∈ s'.tree.nodes, ∃ m ∈ s.tree.nodes, n = if m.id = i then { m with obj := o } else m := by
    intro n hn
    rw [ht, Server.setObj, Server.nodes_modifyNode] at hn
    obtain ⟨m, hm, rfl⟩ := List.mem_map.mp hn
    exact ⟨m, hm, rfl⟩
  have hkind : ∀ m : RTNode, (if m.id = i then { m with obj := o } else m).id = m.id ∧
      (if m.id = i then { m with obj := o } else m).ty = m.ty := fun m => by split <;> exact ⟨rfl, rfl⟩
  have hris : ∀ m ∈ s.tree.nodes, m.ty = .fcnt → (if m.id = i then { m with obj := o } else m).ri = m.ri := by
    intro m hm hty
    split
    · rename_i hid
      exact (Obj.str_of_get hri).trans ((hsep m hm hty).mp hid).symm
    · rfl
  refine ⟨?_, fun n hn' => ?_, fun n hn' hty => ?_, fun n hn' p hp hnty hpty hnp => ?_⟩
  · exact h.ids.modify (f := fun n => { n with obj := o }) (fun _ _ _ => rfl) ht
  · obtain ⟨m, hm, rfl⟩ := hnodes n hn'
    rw [(hkind m).1, hn]
    exact h.below m hm
  · obtain ⟨m, hm, rfl⟩ := hnodes n hn'
    rw [(hkind m).2] at hty
    obtain ⟨x, hc⟩ := h.carried m hm hty
    have hx : m.ri = some x := Obj.str_of_get hc.named
    by_cases hid : m.id = i
    · obtain rfl : x = ri := Option.some.inj (hx.symm.trans ((hsep m hm hty).mp hid))
      rw [if_pos hid]
      refine ⟨x, hri, hc.mark, ?_, ?_⟩
      · show HoldsCustom s'.db x (Function.update asked i want m.id)
        rw [hid, Function.update_self]
        exact hown hc.mark (hid ▸ hc.column)
      · intro k
        show Assoc.entries (customAttributes o) k = Assoc.entries (Function.update asked i want m.id) k
        rw [hid, Function.update_self]
        exact hobj k
    · have hne : x ≠ ri := fun he => hid ((hsep m hm hty).mpr (he ▸ hx))
      rw [if_neg hid]
      refine ⟨x, hc.named, hc.mark, ?_, ?_⟩
      · rw [Function.update_of_ne hid]
        exact hdb x _ hne hc.mark hc.column
      · rw [Function.update_of_ne hid]
        exact hc.object
  · obtain ⟨m, hm, rfl⟩ := hnodes n hn'
    obtain ⟨q, hq, rfl⟩ := hnodes p hp
    rw [(hkind m).2] at hnty
    rw [(hkind q).2] at hpty
    rw [hris m hm hnty, hris q hq hpty] at hnp
    rw [(hkind m).1, (hkind q).1]
    exact h.apart m hm q hq hnty hpty hnp

end AttrInv

/-! ## An update -/

/-- An update that leaves no name out: it gives every custom attribute there is, a value that is not null for
each, no name twice where the column keeps the text, no name twice inside a value where it keeps `jsonb`, and names what is
there once. One without custom attributes is one too. -/
def Whole (b : Backend) (old custom : Obj) : Prop :=
  custom.isEmpty = true ∨ ((∀ e ∈ old, custom.has e.1 = true) ∧ (∀ e ∈ custom, e.2.isNull = false) ∧
    (b = .postgresql ∨ (custom.map Prod.fst).Nodup) ∧ (b = .sqlite ∨ singleMembers custom = true) ∧
    ∀ e ∈ custom, (Assoc.entries old e.1).length ≤ 1)

instance (b : Backend) (old custom : Obj) : Decidable (Whole b old custom) :=
  inferInstanceAs (Decidable (custom.isEmpty = true ∨ ((∀ e ∈ old, _) ∧ (∀ e ∈ custom, _) ∧ _ ∧ _ ∧ ∀ e ∈ custom, _)))

section Whole

variable {b : Backend} {old custom want : Obj} {db : Db} {ri : CStr}

/-- What such an update leaves of a name. -/
theorem whole_entries (h : Whole b old custom) (hold : ∀ k, Assoc.entries old k = Assoc.entries want k) (k : Attr) :
    Assoc.entries (applyCustom (old.updateResource custom) custom) k = Assoc.entries (want.updateResource custom) k ∧
      (custom.isEmpty = false → Assoc.entries (b.document custom) k = Assoc.entries (want.updateResource custom) k) := by
  rcases h with h | ⟨hcover, hnull, hnames, hsingle, honce⟩
  · obtain rfl := List.isEmpty_iff.mp h
    exact ⟨hold k, fun h' => absurd (h.symm.trans h') (by decide)⟩
  · have hkept : (lastValue custom k = none → Assoc.entries old k = []) ∧ (Assoc.entries old k).length ≤ 1 := by
      have hnil : Obj.get custom k = none → Assoc.entries old k = [] := by
        intro hg
        rw [List.eq_nil_iff_forall_not_mem]
        intro e he
        obtain ⟨he, hk⟩ := List.mem_filter.mp he
        obtain ⟨v, hv⟩ := Assoc.has_iff.mp (hcover e he)
        rw [of_decide_eq_true hk] at hv
        cases hg.symm.trans hv
      refine ⟨fun hl => hnil (lastValue_eq_none.mp hl), ?_⟩
      cases hg : Obj.get custom k with
      | none => simp [hnil hg]
      | some v => exact honce _ (Assoc.mem_of_get hg)
    have hone : (Assoc.entries (old.updateResource custom) k).length ≤ 1 := Obj.length_entries_updateResource hkept.2 custom
    rw [entries_applyCustom _ _ _ hone, entries_updateResource _ _ _ hkept.2 hnull,
      entries_updateResource _ _ _ (hold k ▸ hkept.2) hnull, entries_document hnames hsingle, ← hold k]
    cases hl : lastValue custom k with
    | none => exact ⟨rfl, fun _ => (hkept.1 hl).symm⟩
    | some v => exact ⟨rfl, fun _ => rfl⟩

end Whole

/-! ## The handlers -/

theorem customColumn_inColumns (ty : ResourceType) (hty : ty = .fcnt ∨ ty = .fcin) (o : Obj) :
    (inColumns ty o).get customColumn = none := by
  unfold inColumns
  rw [Obj.get, Assoc.get_filterKeys, if_neg]
  rcases hty with rfl | rfl <;> decide

theorem addresses_inColumns {o : Obj} {ri : CStr} (h : Addresses o ri) : Addresses (inColumns .fcnt o) ri := by
  unfold Addresses inColumns at *
  rw [Obj.get, Assoc.get_filterKeys, if_pos (by decide)]
  exact h

namespace AttrInv

variable {s s' : Server} {asked : Nat → Obj} {e : FcntEnv} {req : Req} {n : RTNode} {ri : CStr} {o obj body : Obj}

/-- The object of a flexContainer gets other standard attributes, in memory and in its row. -/
theorem restate (h : AttrInv s asked) {i : Nat} {db : Db} (hmine : ∀ m ∈ s.tree.nodes, m.ty = .fcnt → m.id = i → m.ri = some ri)
    (hori : o.get .ri = some (.str ri)) (hobj : ∀ k, Assoc.entries (customAttributes o) k = Assoc.entries (asked i) k)
    {b : Obj} (hb : Addresses b ri) (hcol : b.get customColumn = none) (hdb : db = s.db.dbUpdateResource b ri) :
    AttrInv { s.setObj i o with db := db } asked := by
  have hset : AttrInv (s.setObj i o) asked := (h.setObj fun m hm hid hty => by
    obtain ⟨x, hx⟩ := h.carried m hm hty
    refine ⟨hori.trans (Obj.get_of_str (hmine m hm hty hid)).symm, fun k => ?_⟩
    rw [hobj k, hx.object k, hid]).inv
  subst hdb
  exact (hset.updateRow hb hcol).inv

/-- The end of `update_fcnt`. -/
theorem writeFcnt (h : AttrInv s asked) {custom : Obj} {needs : Bool} {r : Resp}
    (hsep : ∀ m ∈ s.tree.nodes, m.ty = .fcnt → (m.id = n.id ↔ m.ri = some ri)) (hri : obj.get .ri = some (.str ri))
    (hbody : body.get .ri = none) (hcustom : customAttributes body = custom)
    (hobj : ∀ k, Assoc.entries (customAttributes obj) k = Assoc.entries (asked n.id) k)
    (hw : Whole e.backend (customAttributes obj) custom) (he : s.writeFcnt e req n obj body custom needs = some (s', r)) :
    r.rsc = .updated ∧ AttrInv s' (Function.update asked n.id ((asked n.id).updateResource custom)) := by
  set o := applyCustom (obj.updateResource body) custom with ho
  have hstd : ∀ e ∈ custom, isStandardFcntAttribute e.1 = false := fun e he => by
    rw [← hcustom] at he
    exact (mem_customAttributes.mp he).2
  have hcust : customAttributes o = applyCustom ((customAttributes obj).updateResource custom) custom := by
    rw [ho, customAttributes_applyCustom _ hstd, customAttributes_updateResource, hcustom]
  have hup : (obj.updateResource body).get .ri = some (.str ri) := (Obj.get_updateResource_of_not_has hbody).trans hri
  have hori : o.get .ri = some (.str ri) := by
    refine ((touches_applyCustom _ custom).get fun hm => ?_).trans hup
    obtain ⟨e, he, hk⟩ := List.mem_map.mp hm
    have := hstd e he
    rw [hk] at this
    cases this
  have hwhole := whole_entries hw hobj
  have hinv := fun k => (hwhole k).1
  unfold Server.writeFcnt at he
  simp only [Obj.str_of_get hup, Option.bind_eq_bind, Option.bind_some] at he
  rw [← ho] at he
  have haddr : Addresses (inColumns .fcnt body) ri := addresses_inColumns (.inl hbody)
  have hcol := customColumn_inColumns .fcnt (.inl rfl) body
  have hdb : ∀ c : Bool, (if c then { s with db := s.db.dbUpdateResource (inColumns .fcnt body) ri } else { s with
      db := Db.dbStoreFcntCustomAttributes e.backend (s.db.dbUpdateResource (inColumns .fcnt body) ri) ri custom }) =
      { s with db := if c then s.db.dbUpdateResource (inColumns .fcnt body) ri
        else Db.dbStoreFcntCustomAttributes e.backend (s.db.dbUpdateResource (inColumns .fcnt body) ri) ri custom } := by
    intro c
    cases c <;> rfl
  rw [hdb] at he
  -- the server before the instance is added
  set s₁ := Server.setObj { s with db := if custom.isEmpty then s.db.dbUpdateResource (inColumns .fcnt body) ri
    else Db.dbStoreFcntCustomAttributes e.backend (s.db.dbUpdateResource (inColumns .fcnt body) ri) ri custom } n.id o with hs₁
  have h₁ : AttrInv s₁ (Function.update asked n.id ((asked n.id).updateResource custom)) := by
    refine h.replace hsep hori (fun k => by rw [hcust]; exact (hwhole k).1) rfl rfl (fun hm hold => ?_) fun x w hx hm hold => ?_
    · have hup := hold.update (ri_ne_nil hm) haddr hcol
      rw [hs₁, Server.setObj_db]
      dsimp only
      split
      · rename_i hc
        rw [List.isEmpty_iff.mp hc]
        exact hup
      · rename_i hc
        exact (hup.store custom).congr fun k => (hwhole k).2 (by simpa using hc)
    · have hup := hold.update (ri_ne_nil hm) haddr hcol
      rw [hs₁, Server.setObj_db]
      dsimp only
      split
      · exact hup
      · exact hup.storeOther (Ne.symm hx)
  have hmine : ∀ m ∈ s₁.tree.nodes, m.ty = .fcnt → m.id = n.id → m.ri = some ri := by
    intro m hm hty hid
    rw [hs₁, Server.setObj, Server.nodes_modifyNode] at hm
    obtain ⟨m₀, -, rfl⟩ := List.mem_map.mp hm
    by_cases hid₀ : m₀.id = n.id
    · rw [if_pos hid₀]
      exact Obj.str_of_get hori
    · rw [if_neg hid₀] at hid
      exact absurd hid hid₀
  clear_value s₁
  split at he
  · obtain ⟨⟨s₂, added⟩, hadd, he⟩ := Option.bind_eq_some_iff.mp he
    have h₂ := h₁.addInstance hadd
    dsimp only at he
    split at he
    · cases he
      exact ⟨rfl, h₂.inv⟩
    · cases he
      refine ⟨rfl, ?_⟩
      have hset : ∀ (o : Obj) (v : Option Int) (k : Attr), k ∈ [Attr.cni, .cbs] →
          Assoc.Touches [.cni, .cbs] o ((v.map fun n => o.set k (.int n)).getD o) := by
        intro o v k hk
        cases v with
        | none => exact .refl _ o
        | some v => exact .set o _ hk
      have htouch := (hset o ((o.num .cni).map fun n => cInt (n - 1)) .cni (by simp)).trans
        (hset _ ((o.num .cbs).bind fun n => (o.num .cs).map fun cs => cInt (n - cs)) .cbs (by simp))
      refine h₂.inv.restate (fun m hm hty hid => ?_) ((htouch.get (by simp)).trans hori) (fun k => ?_) (.inl rfl) rfl rfl
      · obtain ⟨m₁, hm₁, hty₁, hid₁, hri₁⟩ := h₂.kin m hm hty
        exact hri₁.symm.trans (hmine m₁ hm₁ hty₁ (hid₁.trans hid))
      · rw [customAttributes_of_touches htouch (by decide), hcust, (hwhole k).1, Function.update_self]
  · cases he
    exact ⟨rfl, h₁⟩

end AttrInv

/-- The DELETE statements of the instances of a flexContainer, and of the one that its state would give, spare
the rows of the flexContainers. -/
def SparesFcnts (s : Server) (n : RTNode) : Prop :=
  (∀ c ∈ s.fcins n.id, Avoids s.ofFcnt s.db c.uri c.ri) ∧ ∀ st ∈ n.obj.get .st, ∀ r ∈ s.db, s.ofFcnt r →
    like (n.uri ++ '/' :: (n.rn ++ '_' :: Decimal.ofInt st.valueint) ++ ['/', '%']) r.uri = false

instance (s : Server) (n : RTNode) : Decidable (SparesFcnts s n) :=
  inferInstanceAs (Decidable ((∀ c ∈ s.fcins n.id, ∀ r ∈ s.db, s.ofFcnt r → _) ∧ ∀ st ∈ n.obj.get .st, ∀ r ∈ s.db, s.ofFcnt r → _))

theorem SparesFcnts.setDb {s : Server} {n : RTNode} (h : SparesFcnts s n) {db : Db}
    (hdb : ∀ r ∈ db, ∃ q ∈ s.db, q.ri = r.ri ∧ q.uri = r.uri) : SparesFcnts { s with db := db } n := by
  refine ⟨fun c hc r hr hof => ?_, fun st hst r hr hof => ?_⟩
  · obtain ⟨q, hq, hqri, hquri⟩ := hdb r hr
    obtain ⟨m, hm, hmty, hmri⟩ := hof
    rw [← hqri, ← hquri]
    exact h.1 c hc q hq ⟨m, hm, hmty, hqri.trans hmri⟩
  · obtain ⟨q, hq, hqri, hquri⟩ := hdb r hr
    obtain ⟨m, hm, hmty, hmri⟩ := hof
    rw [← hquri]
    exact h.2 st hst q hq ⟨m, hm, hmty, hqri.trans hmri⟩

theorem FcntsFrom.ofFcnt {s s' : Server} (h : FcntsFrom s s') {r q : Row} (hr : s'.ofFcnt r) (hq : q.ri = r.ri) : s.ofFcnt q := by
  obtain ⟨c, hc, hty, hri⟩ := hr
  obtain ⟨d, hd, hdty, -, hdri⟩ := h c hc hty
  exact ⟨d, hd, hdty, hq.trans (hri.trans hdri.symm)⟩

namespace AttrInv

variable {s s' : Server} {asked : Nat → Obj} {e : FcntEnv} {req : Req} {n : RTNode} {ri : CStr} {obj body : Obj}

/-- The instances below a flexContainer after one was added are spared as well. -/
theorem spares_added (h : AttrInv s asked) (hn : n ∈ s.tree.nodes) {b : Bool} (hs : SparesFcnts s n)
    (he : s.addFlexcontainerInstance e req n false = some (s', b)) : ∀ c ∈ s'.fcins n.id, Avoids s'.ofFcnt s'.db c.uri c.ri := by
  have hkept := h.addInstance he
  rcases addFlexcontainerInstance_some he with ⟨-, ht, hdb, -, -⟩ | ⟨-, st, x, hst, hid, hty, -, huri, hrn, hri, -, -, ht, -, -, hrow⟩
  · intro c hc r hr hof
    rw [hdb] at hr
    refine hs.1 c ?_ r hr (hkept.kin.ofFcnt hof rfl)
    unfold Server.fcins Server.children at hc ⊢
    rw [← ht]
    exact hc
  · intro c hc r hr hof
    obtain ⟨m, hm, hmty, hmri⟩ := hof
    obtain ⟨y, hy⟩ := hkept.inv.carried m hm hmty
    have hry : r.ri = some y := hmri.trans (Obj.str_of_get hy.named)
    obtain ⟨q, hq, hqri, hquri⟩ := (instanceRow hrow).2 r hr y hry hy.mark
    have hqof : s.ofFcnt q := hkept.kin.ofFcnt ⟨m, hm, hmty, hmri⟩ hqri
    have hnew : ∀ l ∈ s.tree.nodes, l.id ≠ x.id := fun l hl => by have := h.below l hl; omega
    obtain ⟨-, -, hkids⟩ := Server.children_graft h.ids hn hnew ht
    obtain ⟨hc, hcty⟩ := Server.mem_fcins.mp hc
    have hcases : c = x ∨ c ∈ s.fcins n.id := by
      rcases (hkids n hn).2 with ⟨hne, -⟩ | ⟨-, d, hd, hins⟩
      · exact absurd rfl hne
      · rw [hins] at hc
        rcases List.mem_cons.mp ((roots_insertChild x d).subset hc) with rfl | hc
        · exact .inl rfl
        · exact .inr (Server.mem_fcins.mpr ⟨hd ▸ hc, hcty⟩)
    rcases hcases with rfl | hc
    · refine ⟨fun heq => ?_, ?_⟩
      · have hxri : c.ri = some (resourceIdentifier .fcin e.now s.riCount).1 := Obj.str_of_get hri
        exact mark_fcin e.now s.riCount hy.mark (Option.some.inj (hxri.symm.trans (heq.trans hry)))
      · rw [huri, hrn, ← hquri]
        exact hs.2 st hst q hq hqof
    · rw [← hqri, ← hquri]
      exact hs.1 c hc q hq hqof

/-- The part of `update_fcnt` about `fcied`. -/
theorem applyFcied (h : AttrInv s asked) (hn : n ∈ s.tree.nodes) (hty : n.ty = .fcnt) (hs : SparesFcnts s n) {body' : Obj}
    {content needs : Bool} (he : s.applyFcied e req n body content = some (.ok (s', obj, body', needs))) :
    AttrKept asked s s' ∧ Assoc.Touches fciedAttrs n.obj obj ∧ Assoc.Touches fciedAttrs body body' := by
  obtain ⟨hobj, hbody, hcases⟩ := applyFcied_some h.ids he
  refine ⟨?_, hobj, hbody⟩
  rcases hcases with hr | ⟨-, hr⟩ | ⟨-, s₁, b, hadd, hr⟩
  · have h₁ : AttrKept asked s (s.setObj n.id obj) := h.setObj fun m hm hid _ => by
      rw [h.ids.eq hm hn hid]
      exact ⟨hobj.get (by decide), fun k => by rw [customAttributes_of_touches hobj (by decide)]⟩
    refine h₁.trans (h₁.inv.removes hr fun c hc r hr' hof => ?_)
    rw [Server.fcins_setObj h.ids hn (by rw [hty]; decide)] at hc
    exact hs.1 c hc r hr' (h₁.kin.ofFcnt hof rfl)
  · exact h.removes hr hs.1
  · have h₁ := h.addInstance hadd
    exact h₁.trans (h₁.inv.removes hr (h.spares_added hn hs hadd))

/-- `update_fcnt` refuses, or the custom attributes become those asked for. -/
theorem updateFcnt (h : AttrInv s asked) (hn : n ∈ s.tree.nodes) (hty : n.ty = .fcnt) {sn : Option CStr} {r : Resp}
    (hw : Whole e.backend (customAttributes n.obj) (customAttributes req.pc)) (hs : 4 ≤ req.rvi → SparesFcnts s n)
    (hacpi : s.AcpiSettled e.now (req.pc.get .acpi))
    (he : s.updateFcnt e sn req n = some (s', r)) : (r.rsc ≠ .updated ∧ AttrInv s' asked) ∨
      (r.rsc = .updated ∧ AttrInv s' (Function.update asked n.id ((asked n.id).updateResource (customAttributes req.pc)))) := by
  obtain ⟨ri, hc⟩ := h.carried n hn hty
  unfold Server.updateFcnt at he
  split at he
  · cases he
    exact .inl ⟨by decide, h⟩
  rename_i hkeys
  split at he
  · cases he
    exact .inl ⟨by decide, h⟩
  dsimp only at he
  split at he
  · rename_i hcheck
    cases he
    rw [Server.afterChecks_settled]
    · exact .inl ⟨(denies_checkFcntUpdate _ _ _ _ _ _).ne_updated hcheck, h⟩
    · rw [show (renameOr req.pc).get .acpi = req.pc.get .acpi from (touches_renameOr req.pc).get (by decide)]
      exact hacpi
  have hpcri : req.pc.get .ri = none := by
    refine Assoc.has_eq_false.mp (Bool.eq_false_iff.mpr fun hh => hkeys ?_)
    exact List.any_eq_true.mpr ⟨.ri, by decide, hh⟩
  have hcustom : customAttributes (renameOr req.pc) = customAttributes req.pc :=
    customAttributes_of_touches (touches_renameOr _) (by decide)
  simp only [RTNode.ri, Obj.str_of_get hc.named, Option.bind_eq_bind, Option.bind_some, hcustom] at he
  -- the server once `at` is cleared
  have hat : ∀ c : Bool, ∃ s₀, (if c then { s with db := s.db.dbUpdateResource [(.at, .null)] ri } else s) = s₀ ∧
      AttrKept asked s s₀ ∧ s₀.tree = s.tree ∧ (4 ≤ req.rvi → SparesFcnts s₀ n) := by
    intro c
    cases c
    · exact ⟨s, rfl, h.refl, rfl, hs⟩
    · exact ⟨_, rfl, h.updateRow (.inl rfl) rfl, rfl, fun hrvi =>
        (hs hrvi).setDb fun r hr => of_mem_dbUpdateResource_placed (.inl rfl) (ri_ne_nil hc.mark) rfl hr⟩
  obtain ⟨s₀, hs₀, h₀, ht₀, hs⟩ := hat (processAnncAtUpdate e.kept n.obj (validateAa .update (renameOr req.pc) .fcnt)).2
  rw [hs₀] at he
  -- the body that is merged
  have hrename : Assoc.Touches [.lt, .st, .cs, .aa, .at, .other "or".toList, .other "oref".toList] req.pc (renameOr req.pc) :=
    (touches_renameOr req.pc).mono (by simp)
  have hbody := hrename.trans (.trans ((touches_validateAa .update _ .fcnt).mono (by simp))
    (.trans ((touches_processAnncAtUpdate e.kept n.obj _).mono (by simp))
    (.trans (.add (k := .lt) _ (.str e.now) (by simp)) ((touches_addFcntState e.print n.obj (customAttributes req.pc) _).mono (by simp)))))
  generalize addFcntState e.print n.obj (customAttributes req.pc) _ = body at he hbody
  have hbri : body.get .ri = none := (hbody.get (by decide)).trans hpcri
  have hbc : customAttributes body = customAttributes req.pc := customAttributes_of_touches hbody (by decide)
  have hsep : ∀ s₁, AttrKept asked s s₁ → ∀ m ∈ s₁.tree.nodes, m.ty = .fcnt → (m.id = n.id ↔ m.ri = some ri) := by
    intro s₁ h₁ m hm hmty
    obtain ⟨m₀, hm₀, hmty₀, hid, hri⟩ := h₁.kin m hm hmty
    have hnri : n.ri = some ri := Obj.str_of_get hc.named
    rw [← hid, ← hri]
    exact ⟨fun he => by rw [h.ids.eq hm₀ hn he, hnri], fun he => h.apart m₀ hm₀ n hn hmty₀ hty (he.trans hnri.symm)⟩
  split at he
  · exact .inr (h₀.inv.writeFcnt (hsep s₀ h₀) hc.named hbri hbc hc.object hw he)
  · rename_i hrvi
    split at he
    · rename_i hfcied
      cases he
      exact .inl ⟨(denies_checkFcied _ _).ne_updated hfcied, h₀.inv⟩
    · obtain ⟨applied, happ, he⟩ := Option.bind_eq_some_iff.mp he
      split at he
      · cases he
        exact .inl ⟨applyFcied_error happ, h₀.inv⟩
      · obtain ⟨h₁, hobj, hbody'⟩ := h₀.inv.applyFcied (ht₀ ▸ hn) hty (hs (by omega)) happ
        have hcobj := customAttributes_of_touches hobj (by decide)
        exact .inr (h₁.inv.writeFcnt (hsep _ (h₀.trans h₁)) ((hobj.get (by decide)).trans hc.named)
          ((hbody'.get (by decide)).trans hbri) ((customAttributes_of_touches hbody' (by decide)).trans hbc)
          (fun k => by rw [hcobj]; exact hc.object k) (by rw [hcobj]; exact hw) he)

end AttrInv

/-! ## A creation -/

/-- A body whose custom attributes are stored as they are: none has a name that `create_rtnode` takes out, or a
value it turns into a flag, and where the column is `jsonb` none is given twice, nor a name inside a value. -/
def Storable (b : Backend) (custom : Obj) : Prop :=
  custom.get .uri = none ∧ custom.get .memberOf = none ∧
    (∀ k ∈ [Attr.rr, .mtv, .mdd], (custom.get k).all Json.isBool = true) ∧
    (b = .sqlite ∨ (custom.map Prod.fst).Nodup ∧ singleMembers custom = true)

instance (b : Backend) (custom : Obj) : Decidable (Storable b custom) :=
  decidable_of_iff (custom.has .uri = false ∧ custom.has .memberOf = false ∧
    (∀ k ∈ [Attr.rr, .mtv, .mdd], (custom.get k).all Json.isBool = true) ∧
    (b = .sqlite ∨ (custom.map Prod.fst).Nodup ∧ singleMembers custom = true))
    (and_congr Assoc.has_eq_false (and_congr Assoc.has_eq_false Iff.rfl))

theorem Storable.document {b : Backend} {custom : Obj} (h : Storable b custom) (k : Attr) :
    Assoc.entries (b.document custom) k = Assoc.entries custom k := by
  cases b with
  | sqlite => rfl
  | postgresql =>
    obtain ⟨hn, hs⟩ := h.2.2.2.resolve_left (by simp)
    exact (entries_document (.inl rfl) (.inr hs) k).trans (entries_document (b := .sqlite) (.inr hn) (.inl rfl) k).symm

namespace AttrInv

variable {s s' : Server} {asked : Nat → Obj} {e : FcntEnv} {req : Req} {n p : RTNode} {ri : CStr} {o : Obj}

/-- Nothing is asked of an address that no node has. -/
theorem forget (h : AttrInv s asked) (want : Obj) : AttrInv s (Function.update asked s.nextId want) := by
  refine ⟨h.ids, h.below, fun n hn hty => ?_, h.apart⟩
  rw [Function.update_of_ne (by have := h.below n hn; omega)]
  exact h.carried n hn hty

/-- A flexContainer is linked, with a row that holds its custom attributes. -/
theorem born (h : AttrInv s asked) {i : Nat} {x : RTNode} {want : Obj} (hid : x.id = s.nextId)
    (hri : x.obj.get .ri = some (.str ri)) (hmark : ri.head? = some '2')
    (hnew : ∀ m ∈ s.tree.nodes, m.ty = .fcnt → m.ri ≠ some ri)
    (hobj : ∀ k, Assoc.entries (customAttributes x.obj) k = Assoc.entries want k)
    (ht : s'.tree = s.tree.graft (RTNode.hasId i) (insertChild x)) (hn : s'.nextId = s.nextId + 1)
    (hown : HoldsCustom s'.db ri want)
    (hdb : ∀ y w, y ≠ ri → HoldsCustom s.db y w → HoldsCustom s'.db y w) :
    AttrInv s' (Function.update asked s.nextId want) := by
  obtain ⟨hids, hnodes⟩ := Server.mem_nodes_graft h.ids (fun n hm => by have := h.below n hm; omega) ht
  have hxri : x.ri = some ri := Obj.str_of_get hri
  refine ⟨hids, fun m hm => ?_, fun m hm hty => ?_, fun m hm q hq hmty hqty he => ?_⟩
  · rcases hnodes m hm with rfl | hm
    · omega
    · have := h.below m hm
      omega
  · rcases hnodes m hm with rfl | hm
    · rw [hid, Function.update_self]
      exact ⟨ri, hri, hmark, hown, hobj⟩
    · obtain ⟨y, hy⟩ := h.carried m hm hty
      rw [Function.update_of_ne (by have := h.below m hm; omega)]
      exact ⟨y, hy.named, hy.mark, hdb y _ (fun he => hnew m hm hty (he ▸ Obj.str_of_get hy.named)) hy.column, hy.object⟩
  · rcases hnodes m hm with rfl | hm <;> rcases hnodes q hq with rfl | hq
    · rfl
    · exact absurd (he.symm.trans hxri) (hnew q hq hqty)
    · exact absurd (he.trans hxri) (hnew m hm hmty)
    · exact h.apart m hm q hq hmty hqty he

/-- The end of `create_fcnt`. -/
theorem storeFcnt (h : AttrInv s asked) {custom : Obj} {size : Int} {r : Resp}
    (hty : o.get .ty = some (.int ResourceType.fcnt.code)) (hori : o.get .ri = some (.str ri)) (hmark : ri.head? = some '2')
    (hnew : ∀ m ∈ s.tree.nodes, m.ri ≠ some ri) (hfree : ∀ r ∈ s.db, r.ri ≠ some ri) (hst : Storable e.backend custom)
    (hcust : customAttributes o = custom) (he : s.storeFcnt e req p custom size o = some (s', r)) :
    r.rsc = .created ∧ AttrInv s' (Function.update asked s.nextId custom) := by
  have hget : ∀ k, isStandardFcntAttribute k = false → o.get k = custom.get k := by
    intro k hk
    rw [← hcust]
    unfold customAttributes
    rw [Obj.get, Obj.get, Assoc.get_filterKeys, if_pos (by simp [hk])]
  have hrow : ∀ k, k ∈ columns .fcnt → Obj.get (inColumns .fcnt o) k = o.get k := by
    intro k hk
    unfold inColumns
    rw [Obj.get, Assoc.get_filterKeys, if_pos (List.any_eq_true.mpr ⟨k, hk, decide_eq_true rfl⟩)]
  unfold Server.storeFcnt at he
  simp only [Option.bind_eq_bind] at he
  obtain ⟨rn, hrn, he⟩ := Option.bind_eq_some_iff.mp he
  have hok : s.db.dbStoreResource (inColumns .fcnt o) (p.uri ++ '/' :: rn) =
      some (s.db ++ [⟨p.uri ++ '/' :: rn, .fcnt, Assoc.drop (Assoc.overlay column (inColumns .fcnt o) []) .uri⟩]) :=
    (Db.dbStoreResource_code (by decide) ((hrow .ty (by decide)).trans hty)).mpr rfl
  rw [hok] at he
  dsimp only at he
  rw [Obj.str_of_get hori, Option.bind_some] at he
  obtain ⟨x, hx, he⟩ := Option.bind_eq_some_iff.mp he
  obtain ⟨hid, hxty, -⟩ := createRtnode_some hx
  have hxo : x.obj = o := createRtnode_obj hx ((hget .uri (by decide)).trans hst.1) ((hget .memberOf (by decide)).trans hst.2.1) (by
    intro k hk
    rw [hget k (by revert hk; revert k; decide)]
    exact hst.2.2.1 k hk)
  rw [Server.addChildResourceTree_plain (by rw [hxty]; decide) (by rw [hxty]; decide)] at he
  -- the new row
  generalize hq : (⟨p.uri ++ '/' :: rn, .fcnt, Assoc.drop (Assoc.overlay column (inColumns .fcnt o) []) .uri⟩ : Row) = q at he
  have hqri : q.ri = some ri := by
    subst hq
    refine Obj.str_of_get ((Db.get_stored _ (by decide)).trans ?_)
    rw [hrow .ri (by decide), hori]
    exact (Option.bind_some ..).trans (column_str (ri_ne_nil hmark))
  have hqc : q.customAttrs = [] := by
    subst hq
    unfold Row.customAttrs
    rw [Db.get_stored _ (by decide), customColumn_inColumns .fcnt (.inl rfl)]
    rfl
  have hown : HoldsCustom (s.db ++ [q]) ri [] := by
    refine ⟨⟨q, by simp, hqri⟩, fun r hr hrri => ?_⟩
    rcases List.mem_append.mp hr with hr | hr
    · exact absurd hrri (hfree r hr)
    · rw [List.mem_singleton.mp hr]
      exact ⟨by rw [← hq], fun k => by rw [hqc]⟩
  have hdb : ∀ (s₁ : Server), s₁.tree = s.tree.graft (RTNode.hasId p.id) (insertChild { x with uri := p.uri ++ '/' :: x.rn }) →
      s₁.nextId = s.nextId + 1 → (s₁.db = if custom.isEmpty then s.db ++ [q] else
        Db.dbStoreFcntCustomAttributes e.backend (s.db ++ [q]) ri custom) → AttrInv s₁ (Function.update asked s.nextId custom) := by
    intro s₁ ht hn hdb
    have hxri : x.obj.get .ri = some (.str ri) := hxo ▸ hori
    refine h.born (x := { x with uri := p.uri ++ '/' :: x.rn }) hid hxri hmark (fun m hm _ => hnew m hm) (fun k => ?_) ht hn
      ?_ fun y w hy hold => ?_
    · show Assoc.entries (customAttributes x.obj) k = _
      rw [hxo, hcust]
    · rw [hdb]
      split
      · rename_i hc
        rw [List.isEmpty_iff.mp hc]
        exact hown
      · exact (hown.store custom).congr hst.document
    · rw [hdb]
      have hsnoc := hold.snoc (q := q) (fun he => hy (Option.some.inj (he.symm.trans hqri)))
      split
      · exact hsnoc
      · exact hsnoc.storeOther (Ne.symm hy)
  split at he
  · obtain ⟨⟨s₂, added⟩, hadd, he⟩ := Option.bind_eq_some_iff.mp he
    have hadded := fun (h₁ : AttrInv _ (Function.update asked s.nextId custom)) => h₁.addInstance hadd
    have h₂ := hadded (hdb _ rfl rfl rfl)
    dsimp only at he
    split at he
    · cases he
      have htouch : Assoc.Touches [.cni, .cbs] x.obj ((x.obj.add .cni (.int 1)).add .cbs (.int size)) :=
        (Assoc.Touches.add _ _ (by simp)).trans (.add _ _ (by simp))
      have hxri : x.obj.get .ri = some (.str ri) := by rw [hxo]; exact hori
      have hri : Obj.get ((x.obj.add .cni (.int 1)).add .cbs (.int size)) .ri = some (.str ri) := (htouch.get (by simp)).trans hxri
      refine ⟨rfl, h₂.inv.restate (fun m hm hmty hmid => ?_) hri (fun k => ?_) (addresses_inColumns (.inr hri))
        (customColumn_inColumns .fcnt (.inl rfl) _) rfl⟩
      · obtain ⟨m₁, hm₁, -, hid₁, hri₁⟩ := h₂.kin m hm hmty
        have hnodes := (Server.mem_nodes_graft h.ids (i := p.id) (x := { x with uri := p.uri ++ '/' :: x.rn })
          (fun n hn => (hid ▸ (h.below n hn).ne : n.id ≠ x.id)) rfl).2 m₁ hm₁
        rcases hnodes with rfl | hm₁
        · exact hri₁.symm.trans (Obj.str_of_get hxri)
        · have := h.below m₁ hm₁
          have : m.id = x.id := hmid
          omega
      · show _ = Assoc.entries (Function.update asked s.nextId custom x.id) k
        rw [hid, Function.update_self, customAttributes_of_touches htouch (by decide), hxo, hcust]
    · cases he
      exact ⟨rfl, h₂.inv⟩
  · cases he
    exact ⟨rfl, hdb _ rfl rfl rfl⟩

/-- `create_fcnt` refuses, or the custom attributes of the body are stored. -/
theorem createFcnt (h : AttrInv s asked) {sn : Option CStr} {r : Resp}
    (hun : Unused s (resourceIdentifier .fcnt e.now s.riCount).1) (hst : Storable e.backend (customAttributes req.pc))
    (hacpi : s.AcpiSettled e.now (req.pc.get .acpi))
    (he : s.createFcnt e sn req p = some (s', r)) :
    (s'.nextId = s.nextId ∧ AttrInv s' asked) ∨
      (r.rsc = .created ∧ AttrInv s' (Function.update asked s.nextId (customAttributes req.pc))) := by
  have hcustom : customAttributes (fcntBody sn req.pc) = customAttributes req.pc :=
    customAttributes_of_touches (touches_fcntBody sn req.pc) (by decide)
  unfold Server.createFcnt at he
  dsimp only at he
  split at he
  · cases he
    exact .inl ⟨rfl, h⟩
  · rename_i hcheck
    simp only [Option.bind_eq_bind] at he
    obtain ⟨⟨o₁, m⟩, hgen, he⟩ := Option.bind_eq_some_iff.mp he
    dsimp only at he
    have hfree : ∀ k ∈ fcntNotPermitted, (fcntBody sn req.pc).get k = none := by
      unfold checkFcntBody at hcheck
      obtain ⟨-, -, hcheck⟩ := bind_ok hcheck
      obtain ⟨-, -, hcheck⟩ := bind_ok hcheck
      obtain ⟨-, -, hcheck⟩ := bind_ok hcheck
      obtain ⟨-, -, hcheck⟩ := bind_ok hcheck
      obtain ⟨⟨⟩, hnot, -⟩ := bind_ok hcheck
      intro k hk
      refine Assoc.has_eq_false.mp (Bool.eq_false_iff.mpr fun hh => ?_)
      have := require_ok hnot
      rw [List.any_eq_true.mpr ⟨k, hk, hh⟩] at this
      cases this
    obtain ⟨pi, -, hget⟩ := addGeneralAttribute_some hgen
    have h' : AttrInv { s with riCount := m } asked := ⟨h.ids, h.below, h.carried, h.apart⟩
    split at he
    · cases he
      rw [Server.afterChecks_settled]
      · exact .inl ⟨rfl, h'⟩
      · have hsame : (fcntBody sn req.pc).get .acpi = req.pc.get .acpi := (touches_fcntBody sn req.pc).get (by decide)
        rw [show o₁.get .acpi = req.pc.get .acpi by rw [hget, hsame]; exact Option.or_none]
        exact hacpi
    · rename_i o ho
      have htouch := touches_buildFcnt ho
      have hc : customAttributes o = customAttributes req.pc := ((customAttributes_of_touches htouch (by decide)).trans
        (customAttributes_of_touches (touches_addGeneralAttribute hgen) (by decide))).trans hcustom
      have hori : o.get .ri = some (.str (resourceIdentifier .fcnt e.now s.riCount).1) := by
        refine (htouch.get (by decide)).trans ((hget .ri).trans ?_)
        rw [hfree .ri (by decide)]
        rfl
      refine .inr (h'.storeFcnt ?_ hori rfl hun.1 (fun r hr => (hun.2 r hr).1) hst hc (hcustom ▸ he))
      refine (htouch.get (by decide)).trans ((hget .ty).trans ?_)
      rw [hfree .ty (by decide)]
      rfl

/-- `increment_parent_statetag` of a node of the tree. -/
theorem incrementParentStatetag (h : AttrInv s asked) (now : CStr) (i : Nat) :
    AttrKept asked s (s.incrementParentStatetag now (.inTree i)) := by
  unfold Server.incrementParentStatetag
  split
  · exact h.refl
  · rename_i m hm
    obtain ⟨hmem, hid⟩ := Server.node?_mem hm
    split
    · exact h.refl
    · rename_i hty
      rw [not_not] at hty
      split
      · rename_i st _
        split
        · dsimp only
          obtain ⟨ri, hc⟩ := h.carried m hmem hty
          have htouch := Assoc.Touches.set (l := [Attr.st]) m.obj (.int (cInt (st.valueint + 1))) (by simp : Attr.st ∈ [Attr.st])
          have hset := h.setObj (i := i) (o := m.obj.set .st (.int (cInt (st.valueint + 1)))) fun l hl hlid _ => by
            rw [h.ids.eq hl hmem (hlid.trans hid.symm)]
            exact ⟨htouch.get (by simp), fun k => congrArg (Assoc.entries · k) (customAttributes_of_touches htouch (by decide))⟩
          simp only [RTNode.ri, Obj.str_of_get hc.named]
          exact hset.trans (hset.inv.updateRow (.inl rfl) rfl)
        · exact h.refl
      · exact h.refl

end AttrInv

end TinyIoT
