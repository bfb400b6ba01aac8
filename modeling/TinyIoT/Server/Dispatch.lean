/-
From a request to its handler (`route`, `handle_onem2m_request`, `create_onem2m_resource`,
`update_onem2m_resource`): the lookup of the target and the checks made for every type. The privilege
check and the check of attribute names only refuse; a request here is one they let through.
-/
import TinyIoT.Resource.Container
import TinyIoT.Server.Resolve

namespace TinyIoT

/-- The test of `isETvalid` on a body: an expiration time that is given does not lie before the clock. -/
def etValid (now : CStr) (body : Obj) : Bool :=
  match body.get .et with
  | none => true
  | some j => match j.valuestring with
    | none => false
    | some et => !strLt et now

namespace Server

/-- `create_onem2m_resource` around the handler of the type. -/
def createOnem2mResource (env : Env) (req : Req) (ty : ResourceType)
    (create : Server → RTNode → Option (Server × Resp)) (s : Server) (parent : RTNode) : Option (Server × Resp) :=
  match s.checkRnDuplicate req ty parent with
  | some r => some (s, r)
  | none =>
    if !ResourceType.isValidChildType parent.ty ty then
      some (s, if ty = .sub then handleError .targetNotSubscribable "target not subscribable"
        else handleError .invalidChildResourcetype "child type error")
    else if !etValid env.now req.pc then some (s, handleError .badRequest "attribute `et` is invalid")
    else do
      let (s, r) ← create s parent
      if r.rsc = .created ∧ (ty = .cnt ∨ ty = .fcnt) ∧ parent.ty = .fcnt then
        return (s.incrementParentStatetag env.now (.inTree parent.id), r)
      return (s, r)

/-- A request whose target is a node of the tree; `k` handles it. A target outside the tree is an
instance, which `loose` answers. -/
def onTarget (now : CStr) (addr : CStr) (loose : Resp) (k : Server → RTNode → Option (Server × Resp))
    (s : Server) : Option (Server × Resp) :=
  let (s, p) := s.findRtnode now addr
  match p with
  | .null => some (s, handleError .notFound "URI is invalid")
  | .loose _ _ => some (s, loose)
  | .inTree i => match s.node? i with
    | none => some (s, handleError .notFound "URI is invalid")
    | some n => k s n

/-- A CREATE request for a container. -/
def requestCreateCnt (env : Env) (req : Req) (s : Server) : Option (Server × Resp) :=
  s.onTarget env.now req.target (handleError .invalidChildResourcetype "child type error")
    (createOnem2mResource env req .cnt (createCnt env req))

/-- A CREATE request for a content instance. -/
def requestCreateCin (env : Env) (req : Req) (s : Server) : Option (Server × Resp) :=
  s.onTarget env.now req.target (handleError .invalidChildResourcetype "child type error")
    (createOnem2mResource env req .cin (createCin env req))

/-- An UPDATE request with the body of a container. -/
def requestUpdateCnt (env : Env) (kept : Json → List Json) (req : Req) (s : Server) : Option (Server × Resp) :=
  s.onTarget env.now req.target (handleError .operationNotAllowed "operation `update` for cin is not allowed")
    fun s n =>
      if n.ty ≠ .cnt then some (s, handleError .badRequest "resource type is invalid")
      else if req.pc.has .acpi && req.pc.length ≠ 1 then
        some (s, handleError .badRequest "attribute `acpi` shall be the only attribute in an UPDATE request")
      else if !etValid env.now req.pc then some (s, handleError .badRequest "attribute `et` is invalid")
      else updateCnt env kept req s n

/-- A DELETE request. -/
def requestDelete (now : CStr) (req : Req) (s : Server) : Option (Server × Resp) :=
  let (s, p) := s.findRtnode now req.target
  match p.deref s with
  | none => some (s, handleError .notFound "URI is invalid")
  | some _ => s.deleteOnem2mResource now req p

/-! ## What the dispatch leaves to the handlers -/

variable {s s' : Server} {now addr : CStr}

/-- A request is answered without its handler, or the handler runs on a node of the tree. -/
theorem onTarget_answer {loose : Resp} {k : Server → RTNode → Option (Server × Resp)} {r : Resp}
    (hs : s.Settled now addr) (h : s.onTarget now addr loose k = some (s', r)) :
    (s' = s ∧ (r = handleError .notFound "URI is invalid" ∨ r = loose)) ∨
      ∃ n ∈ s.tree.nodes, s.named addr = some n ∧ k s n = some (s', r) := by
  unfold onTarget at h
  rcases findRtnode_settled hs with hf | ⟨n, hn, hf⟩
  · rw [hf] at h
    cases h
    exact .inl ⟨rfl, .inl rfl⟩
  · rw [hf] at h
    dsimp only at h
    split at h
    · cases h; exact .inl ⟨rfl, .inl rfl⟩
    · cases h; exact .inl ⟨rfl, .inr rfl⟩
    · rename_i i hp
      split at h
      · cases h; exact .inl ⟨rfl, .inl rfl⟩
      · rename_i m hm
        refine .inr ⟨m, (node?_mem hm).1, ?_, h⟩
        unfold named
        rw [hp]
        exact hm

/-- A request changes nothing, or its handler runs on a node of the tree. -/
theorem onTarget_some {loose : Resp} {k : Server → RTNode → Option (Server × Resp)} {r : Resp}
    (hs : s.Settled now addr) (h : s.onTarget now addr loose k = some (s', r)) :
    s' = s ∨ ∃ n ∈ s.tree.nodes, s.named addr = some n ∧ k s n = some (s', r) :=
  (onTarget_answer hs h).imp_left And.left

theorem createOnem2mResource_some {env : Env} {req : Req} {ty : ResourceType}
    {create : Server → RTNode → Option (Server × Resp)} {parent : RTNode} {r : Resp}
    (h : s.createOnem2mResource env req ty create parent = some (s', r)) :
    s' = s ∨ (s.checkRnDuplicate req ty parent = none ∧ ResourceType.isValidChildType parent.ty ty = true ∧
      etValid env.now req.pc = true ∧ ∃ s₁, create s parent = some (s₁, r) ∧
        (s' = s₁ ∨ s' = s₁.incrementParentStatetag env.now (.inTree parent.id))) := by
  unfold createOnem2mResource at h
  split at h
  · cases h; exact .inl rfl
  · rename_i hdup
    split at h
    · cases h; exact .inl rfl
    · rename_i hchild
      split at h
      · cases h; exact .inl rfl
      · rename_i het
        simp only [Option.bind_eq_bind] at h
        obtain ⟨⟨s₁, r₁⟩, hc, h⟩ := Option.bind_eq_some_iff.mp h
        refine .inr ⟨hdup, by simpa using hchild, by simpa using het, s₁, ?_⟩
        dsimp only at h
        split at h
        · cases h; exact ⟨hc, .inr rfl⟩
        · cases h; exact ⟨hc, .inl rfl⟩

end Server

end TinyIoT
