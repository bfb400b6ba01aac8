/-
Attributes that handlers leave alone: objects that agree on a list of attributes, as those a resource gets at its
creation.
-/
import TinyIoT.Resource.Built
import TinyIoT.Resource.FlexContainer
import TinyIoT.Resource.TimeSeries
import TinyIoT.Server.Spared

namespace TinyIoT

/-- The attributes a resource gets at its creation and keeps. -/
def stampAttrs : List Attr := [.ty, .ri, .pi, .rn, .ct]

/-- The two objects have the same under these attributes. -/
def SameOn (l : List Attr) (o o' : Obj) : Prop := ∀ k ∈ l, o'.get k = o.get k

namespace SameOn

variable {l : List Attr} {o o' o'' : Obj} {k : Attr}

theorem refl (l : List Attr) (o : Obj) : SameOn l o o := fun _ _ => rfl

theorem symm (h : SameOn l o o') : SameOn l o' o := fun k hk => (h k hk).symm

theorem trans (h : SameOn l o o') (h' : SameOn l o' o'') : SameOn l o o'' := fun k hk => (h' k hk).trans (h k hk)

theorem mono {l' : List Attr} (h : SameOn l o o') (hl : l' ⊆ l) : SameOn l' o o' := fun k hk => h k (hl hk)

/-- Objects that differ in other attributes only. -/
theorem of_get {l' : List Attr} (hl : ∀ k ∈ l, k ∉ l') (h : ∀ k ∉ l', o'.get k = o.get k) : SameOn l o o' :=
  fun k hk => h k (hl k hk)

theorem of_touches {l' : List Attr} (h : Assoc.Touches l' o o') (hl : ∀ k ∈ l, k ∉ l') : SameOn l o o' :=
  fun k hk => h.get (hl k hk)

theorem add (o : Obj) (v : Json) (hk : k ∉ l) : SameOn l o (o.add k v) :=
  fun _ hk' => Assoc.get_add_ne (ne_of_mem_of_not_mem hk' hk).symm

theorem set (o : Obj) (v : Json) (hk : k ∉ l) : SameOn l o (o.set k v) :=
  fun _ hk' => Assoc.get_set_ne (ne_of_mem_of_not_mem hk' hk).symm

theorem del (o : Obj) (hk : k ∉ l) : SameOn l o (o.del k) :=
  fun _ hk' => Assoc.get_del_ne (ne_of_mem_of_not_mem hk' hk).symm

theorem orAdd (o : Obj) (v : Json) (hk : k ∉ l) : SameOn l o (o.orAdd k v) := by
  unfold Obj.orAdd
  split
  · exact refl l o
  · exact add o v hk

theorem validateAa (op : Operation) (o : Obj) (ty : ResourceType) (hk : .aa ∉ l) : SameOn l o (validateAa op o ty) :=
  fun _ hk' => get_validateAa (ne_of_mem_of_not_mem hk' hk)

theorem announceAt (env : Env) (o : Obj) (hk : .at ∉ l) : SameOn l o (announceAt env o) :=
  fun _ hk' => get_announceAt (ne_of_mem_of_not_mem hk' hk)

theorem assignCreator {req : Req} (h : assignCreator req o = .ok o') (hk : .cr ∉ l) : SameOn l o o' :=
  fun _ hk' => get_assignCreator h (ne_of_mem_of_not_mem hk' hk)

theorem createRtnode {id : Nat} {ty : ResourceType} {n : RTNode} (h : createRtnode id o ty = some n)
    (hl : ∀ k ∈ l, k ∉ rewritten) : SameOn l o n.obj :=
  fun k hk => Assoc.get_congr (entries_createRtnode h (hl k hk))

end SameOn

theorem SameOn.of_spared {l : List Attr} {o o' : Obj} (h : SparedObj o o') (hl : ∀ k ∈ l, k ∉ .mid :: deletionAttrs) :
    SameOn l o o' :=
  fun k hk => Assoc.get_congr (h.attrs k (hl k hk))

end TinyIoT
