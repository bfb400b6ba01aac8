/-
The values the CSE maintains itself: the counters, sizes and state tags a request is not to set. What a state
holds of them, in memory with every entry of a key, in the database by column; a body without them; and the
operations of the handlers that do not see the difference.
-/
import TinyIoT.Resource.Group
import TinyIoT.Resource.Denials
import TinyIoT.Monitor.Missing

namespace TinyIoT

/-! ## The values -/

/-- The attributes the CSE maintains, for the types whose requests are looked at. -/
def ResourceType.maintained : ResourceType → List Attr
  | cnt => [.st, .cni, .cbs]
  | cin => [.cs, .st]
  | grp => [.cnm, .mtv]
  | ts => [.cni, .cbs, .mdc, .mdlt]
  | tsi => [.cs]
  | _ => []

/-- The keys a client may give. -/
def ResourceType.free (ty : ResourceType) (k : Attr) : Bool := !ty.maintained.contains k

theorem ResourceType.free_eq_false {ty : ResourceType} {k : Attr} : ty.free k = false ↔ k ∈ ty.maintained := by
  unfold ResourceType.free
  rw [Bool.not_eq_false', List.contains_iff_mem]

/-- A body without the keys the CSE maintains. -/
def unclaimed (ty : ResourceType) (body : Obj) : Obj := Assoc.filterKeys ty.free body

/-- What a node holds of the values: every entry counts. -/
def RTNode.maintained (n : RTNode) : Nat × ResourceType × List (List (Attr × Json)) :=
  (n.id, n.ty, n.ty.maintained.map (Assoc.entries n.obj))

/-- What a row holds of them. -/
def Row.maintained (r : Row) : CStr × ResourceType × List (Option Json) :=
  (r.uri, r.ty, r.ty.maintained.map r.obj.get)

/-- What a state holds of them. -/
def Server.maintained (s : Server) :
    List (Nat × ResourceType × List (List (Attr × Json))) × List (CStr × ResourceType × List (Option Json)) :=
  (s.tree.nodes.map RTNode.maintained, s.db.map Row.maintained)

theorem RTNode.of_maintained {n m : RTNode} (h : n.maintained = m.maintained) :
    n.id = m.id ∧ n.ty = m.ty ∧ ∀ k ∈ n.ty.maintained, Assoc.entries n.obj k = Assoc.entries m.obj k := by
  obtain ⟨hid, hrest⟩ := Prod.mk.inj h
  obtain ⟨hty, hmap⟩ := Prod.mk.inj hrest
  refine ⟨hid, hty, List.map_inj_left.mp ?_⟩
  rw [hmap, hty]

namespace Server

variable {s s₁ s₂ : Server}

/-- A node of one state has its like in the other. -/
theorem exists_of_maintained (h : s₁.maintained = s₂.maintained) {n : RTNode} (hn : n ∈ s₁.tree.nodes) :
    ∃ m ∈ s₂.tree.nodes, m.id = n.id ∧ ∀ k ∈ n.ty.maintained, Assoc.entries m.obj k = Assoc.entries n.obj k := by
  have hin : n.maintained ∈ s₂.tree.nodes.map RTNode.maintained :=
    (Prod.mk.inj h).1 ▸ List.mem_map_of_mem (f := RTNode.maintained) hn
  obtain ⟨m, hm, he⟩ := List.mem_map.mp hin
  obtain ⟨hid, hty, hk⟩ := RTNode.of_maintained he
  exact ⟨m, hm, hid, fun k hkm => hk k (hty ▸ hkm)⟩

end Server

/-! ## Handlers that do not see the difference -/

section

variable {p : Attr → Bool} {o : Obj} {k : Attr}

theorem Obj.get_filterKeys (hk : p k = true) (o : Obj) : Obj.get (Assoc.filterKeys p o) k = o.get k := by
  show Assoc.get _ k = _
  rw [Assoc.get_filterKeys, if_pos hk]

theorem Obj.has_filterKeys (hk : p k = true) (o : Obj) : Obj.has (Assoc.filterKeys p o) k = o.has k := by
  show Assoc.has _ k = _
  rw [Assoc.has_filterKeys, hk, Bool.true_and]

theorem Obj.add_filterKeys (hk : p k = true) (o : Obj) (v : Json) :
    Obj.add (Assoc.filterKeys p o) k v = Assoc.filterKeys p (o.add k v) := by
  show Assoc.add _ k v = _
  rw [Assoc.filterKeys_add, if_pos hk]

theorem Obj.del_filterKeys (hk : p k = true) (o : Obj) :
    Obj.del (Assoc.filterKeys p o) k = Assoc.filterKeys p (o.del k) := by
  show Assoc.del _ k = _
  rw [Assoc.filterKeys_del, if_pos hk]

theorem Obj.orAdd_filterKeys (hk : p k = true) (o : Obj) (v : Json) :
    Obj.orAdd (Assoc.filterKeys p o) k v = Assoc.filterKeys p (o.orAdd k v) := by
  unfold Obj.orAdd
  rw [Obj.has_filterKeys hk, Obj.add_filterKeys hk]
  split <;> rfl

/-- An attribute that is added where it is missing, written out. -/
theorem addMissing_filterKeys (hk : p k = true) (o : Obj) (v : Json) :
    (if Obj.has (Assoc.filterKeys p o) k then Assoc.filterKeys p o else Obj.add (Assoc.filterKeys p o) k v) =
      Assoc.filterKeys p (if o.has k then o else o.add k v) :=
  Obj.orAdd_filterKeys hk o v

theorem validateMandatoryAttrs_filterKeys {ty : ResourceType} (h : ∀ k ∈ ty.mandatory, p k = true) (o : Obj)
    (op : Operation) : validateMandatoryAttrs ty (Assoc.filterKeys p o) op = validateMandatoryAttrs ty o op := by
  unfold validateMandatoryAttrs
  generalize ty.mandatory = l at h
  induction l with
  | nil => rfl
  | cons k l ih =>
    have hl := ih fun k' hk' => h k' (List.mem_cons_of_mem _ hk')
    refine congrArg₂ (fun (x y : Except Resp Unit) => x >>= fun _ => y) ?_ hl
    simp only [Obj.get_filterKeys (h k List.mem_cons_self)]

theorem addGeneralAttribute_filterKeys (h : ∀ k ∈ [Attr.ty, .ct, .ri, .rn, .lt, .pi, .et], p k = true) (env : Env)
    (o parent : Obj) (ty : ResourceType) (n : Nat) :
    addGeneralAttribute env (Assoc.filterKeys p o) parent ty n =
      (addGeneralAttribute env o parent ty n).map fun r => (Assoc.filterKeys p r.1, r.2) := by
  unfold addGeneralAttribute
  simp only [Obj.add_filterKeys (h .ty (by decide)), Obj.add_filterKeys (h .ct (by decide)),
    Obj.add_filterKeys (h .ri (by decide)), addMissing_filterKeys (h .rn (by decide)),
    Obj.add_filterKeys (h .lt (by decide)), Obj.add_filterKeys (h .pi (by decide)),
    addMissing_filterKeys (h .et (by decide))]
  cases parent.str .ri <;> rfl

end

end TinyIoT
