import ObjectModel.Builtin.Globals
import ObjectModel.Proofs.Code.Copies
import ObjectModel.Proofs.Maps.Lookup

/-!
# Writes to nodes

What is written to a field of a node is read back from it, now and after whatever is written elsewhere
(`field_writes`), and a field that is written with what was read from it holds what it held
(`field_written_back`). A missing name is the exception: it is read as the empty name, and no value in
the place of a name is stored as a missing one.
-/

namespace ObjectModel

open State ObjectModel.Action Behavior

variable {s t u : State} {target object key value : Ref} {node : Node} {name : String} {host : Host}
  {rounds : Nat}

-- ---------------------------------------------------------------------------
-- Writes elsewhere
-- ---------------------------------------------------------------------------

namespace State

/-- A write that asks no other object for anything that runs code: of a value of the right shape to a
field of a node, of an item of a list, or of a value under a name or an int in a map without a hook. -/
inductive Simple (s : State) (object key value : Ref) : Prop where
  | field {node : Node} {name : String} (hnode : s.node? object = some node)
      (hkey : s.payload key = .string name)
      (hvalue : ∀ shape, FieldShape.of? node.isDeclaration name = some shape →
        ∃ new : Field, new.shape = shape ∧ s.Shows value new)
  | item {items : Array Ref} {index : Int64} (hlist : s.payload object = .list items)
      (hkey : s.payload key = .int index)
  | entry (hclosed : s.Closed) (hmap : s.kind object = .map) (hhook : s.hook? object "__setindex" = none)
      (hkey : s.PlainKey key)

/-- What may come to pass once a node was written to: fields of any node are read, and simple writes go
to any object but that node. -/
inductive Elsewhere (host : Host) (target : Ref) : State → State → Prop where
  | here (s : State) : Elsewhere host target s s
  | write {s t u : State} {object key value : Ref} {rounds : Nat} {e : Ending}
      (h : Elsewhere host target s t) (hother : target ≠ object) (hsimple : t.Simple object key value)
      (hrun : ((machine host (rounds + 3)).setIndex object key value).ending? t = some (e, u)) :
      Elsewhere host target s u
  | read {s t u : State} {object key : Ref} {node : Node} {name : String} {rounds : Nat} {e : Ending}
      (h : Elsewhere host target s t) (hnode : t.node? object = some node)
      (hkey : t.payload key = .string name)
      (hrun : ((machine host (rounds + 3)).index object key).ending? t = some (e, u)) :
      Elsewhere host target s u

/-- A read of the field gives an object that shows what the field holds. The object and all that it
refers to are new. -/
def Reads (s : State) (host : Host) (target : Ref) (name : String) (held : Field) : Prop :=
  ∀ key, s.payload key = .string name → ∀ rounds,
    ((machine host (rounds + 1)).index target key).Ends s
      (fun object t => t.Shows object held ∧ s.Since t object ∧ s.Spawned t) fun _ => False

theorem node?_of_payload (h : t.payload target = s.payload target) : t.node? target = s.node? target := by
  unfold node?
  rw [h]

theorem contains_of_node? (h : s.node? target = some node) : s.heap.Contains target := by
  refine contains_of_kind_ne ?_
  rw [kind, node?_eq_some.mp h]
  cases node <;> simp [Node.payload, Payload.kind]

theorem Grown.node? {note : Option (Std.TreeSet Nat)} (h : s.Grown t note)
    (hnode : s.node? target = some node) : t.node? target = some node :=
  (node?_of_payload (h.kept target (contains_of_node? hnode))).trans hnode

end State

theorem node?_withNode_other (h : target ≠ object) (other : Node) :
    (s.withNode object other).node? target = s.node? target :=
  node?_of_payload (payload_stored_other h)

theorem State.Stores.node? (h : s.Stores object key value t) (hother : target ≠ object)
    (hnode : s.node? target = some node) : t.node? target = some node := by
  refine (node?_of_payload (h.kept target (contains_of_node? hnode) ?_)).trans hnode
  cases hfound : s.found? object key with
  | none => exact hother
  | some cell =>
    rintro rfl
    obtain ⟨stored, old, hcell, -⟩ := h.replaced target hfound
    simp [State.node?, hcell] at hnode

theorem ends_simple_write (h : s.Simple object key value) (hother : target ≠ object)
    (hnode : s.node? target = some node) : ((machine host (rounds + 3)).setIndex object key value).Ends s
      (fun _ t => t.node? target = some node) fun t => t.node? target = some node := by
  cases h with
  | @field other name hobject hkey hvalue =>
    cases hshape : FieldShape.of? other.isDeclaration name with
    | none => exact (ends_setIndex_unknown hobject hkey hshape).mpr hnode
    | some shape =>
      obtain ⟨new, rfl, hshows⟩ := hvalue shape hshape
      refine (ends_setIndex_node hobject hkey hshape hshows).mpr ?_
      rwa [node?_withNode_other hother]
  | @item items index hlist hkey =>
    have hindex (held : List (List Ref)) : (s.withHeld held).payload key = .int index := hkey
    rw [ends_setIndex host _ (kind_of_payload hlist) rfl]
    simp only [Lists.setIndex, ends_bind, ends_argument_first, ends_argument_second,
      ends_argument_third, Dispatcher.intArgument, Dispatcher.ends_toInt _ (hindex _), ends_payload,
      payload_withHeld, hlist]
    split
    · exact (node?_of_payload (payload_stored_other hother)).trans hnode
    · exact hnode
  | entry hclosed hmap hhook hkey =>
    have hhook (held : List (List Ref)) : (s.withHeld held).hook? object "__setindex" = none := hhook
    have hset (held : List (List Ref)) := Map.ends_set host rounds (s := s.withHeld held)
      (hclosed.madeCells object) hmap hkey value
    rw [ends_setIndex host _ hmap rfl]
    simp only [Maps.setIndex, ends_bind, ends_argument_first, ends_argument_second, ends_argument_third,
      Map.ends_hook?, hhook, ends_nothing]
    exact (hset _).imp_sure fun _ t h => h.unheld.node? hother hnode

/-- Whatever comes to pass elsewhere leaves the node as it is. -/
theorem State.Elsewhere.node? (h : Elsewhere host target s t) (hnode : s.node? target = some node) :
    t.node? target = some node := by
  induction h with
  | here => exact hnode
  | write _ hother hsimple hrun ih => exact (ends_simple_write hsimple hother ih).of_ending? hrun
  | @read t u object key other name rounds e _ hobject hkey hrun ih =>
    have hends : ((machine host (rounds + 3)).index object key).Ends t
        (fun _ u => u.node? target = some node) fun u => u.node? target = some node := by
      cases hheld : other.field? name with
      | some held => exact (ends_index_node hobject hkey hheld).imp_sure fun _ u h => h.1.grown.node? ih
      | none =>
        rw [ends_index_field hobject hkey, hheld]
        exact ih
    exact hends.of_ending? hrun

-- ---------------------------------------------------------------------------
-- What is written is read
-- ---------------------------------------------------------------------------

theorem State.shape_taken (s : State) (value : Ref) (field : Field) :
    (s.taken value field).shape = field.shape := by
  cases field <;> rfl

theorem State.shows_taken {field : Field} (h : field.shape = .name → value ≠ s.nothing) :
    t.Shows object (s.taken value field) ↔ t.Shows object field := by
  cases field with
  | name text => simp [taken, Shows, h rfl]
  | _ => rfl

theorem State.reads_of_field? {held : Field} (hnode : s.node? target = some node)
    (hheld : node.field? name = some held) : s.Reads host target name held :=
  fun _ hkey _ => (ends_index_node hnode hkey hheld).imp_value fun _ _ h => ⟨h.2.2, h.2.1, h.1⟩

theorem State.Reads.congr {held other : Field} (h : s.Reads host target name held)
    (hshows : ∀ (t : State) object, t.Shows object held ↔ t.Shows object other) :
    s.Reads host target name other :=
  fun key hkey rounds => (h key hkey rounds).imp_value fun object t h => ⟨(hshows t object).mp h.1, h.2⟩

/-- A node takes a value of the right shape. The field is then read as an object that shows the value and
is made anew, and each other field as before, whatever is written meanwhile to the value, to what was
read, or to any other object. A field that the node lacks takes nothing, and so does the number of the
form if it is that of the node or of none; another number empties the node. -/
theorem field_writes (host : Host) (rounds : Nat) (s : State) (target key value : Ref) (node : Node)
    (name : String) (new : Field) (hnode : s.node? target = some node)
    (hkey : s.payload key = .string name)
    (hshows : ∀ shape, FieldShape.of? node.isDeclaration name = some shape →
      new.shape = shape ∧ s.Shows value new)
    (hvalue : new.shape = .name → value ≠ s.nothing) :
    ∃ after t, ((machine host (rounds + 1)).setIndex target key value).run s = .ok () t ∧
      t = { s with heap := t.heap } ∧ (∀ o, o ≠ target → t.payload o = s.payload o) ∧
      (∀ u, Elsewhere host target t u → u.node? target = some after ∧
        ∀ other held, after.field? other = some held → u.Reads host target other held) ∧
      (∀ old, node.field? name = some old → name ∉ ["kind", "type"] →
        (∀ u, Elsewhere host target t u → u.Reads host target name new) ∧
        ∀ other, other ≠ name → after.field? other = node.field? other) ∧
      (node.field? name = none → after = node) ∧
      ∀ tag, name = "type" → new = .int tag →
        (node.Offers tag → tag ≠ node.formTag → after.kindTag = node.kindTag ∧ after.formTag = tag ∧
          after.position = node.position ∧ after.IsEmpty) ∧
        (¬ node.Offers tag ∨ tag = node.formTag → after = node) := by
  have hreads {t : State} {after : Node} (hafter : t.node? target = some after) (u : State)
      (helsewhere : Elsewhere host target t u) : u.node? target = some after ∧
        ∀ other held, after.field? other = some held → u.Reads host target other held :=
    ⟨helsewhere.node? hafter, fun _ _ hheld => reads_of_field? (helsewhere.node? hafter) hheld⟩
  cases hshape : FieldShape.of? node.isDeclaration name with
  | none =>
    obtain ⟨_, t, hrun, rfl⟩ : ∃ (_ : Unit) (t : State),
        ((machine host (rounds + 1)).setIndex target key value).run s = .ok () t ∧ t = s :=
      ((ends_setIndex_unknown hnode hkey hshape).mpr rfl).exists_run
    refine ⟨node, t, hrun, rfl, fun _ _ => rfl, hreads hnode, fun old hold hname => ?_, fun _ => rfl, ?_⟩
    · have hkind : name ≠ "kind" := by rintro rfl; simp at hname
      cases hshape.symm.trans (Node.shape_of_field? hold hkind)
    · rintro tag rfl
      cases hshape
  | some shape =>
    obtain ⟨rfl, hshows⟩ := hshows shape hshape
    obtain ⟨_, t, hrun, rfl⟩ : ∃ (_ : Unit) (t : State),
        ((machine host (rounds + 1)).setIndex target key value).run s = .ok () t ∧
          t = s.withNode target (node.withField name (s.taken value new)) :=
      ((ends_setIndex_node hnode hkey hshape hshows).mpr rfl).exists_run
    have hafter : (s.withNode target (node.withField name (s.taken value new))).node? target =
        some (node.withField name (s.taken value new)) := node?_withNode hnode
    refine ⟨_, _, hrun, rfl, fun o ho => payload_stored_other ho, hreads hafter, ?_, ?_, ?_⟩
    · intro old hold hname
      simp only [List.mem_cons, List.not_mem_nil, or_false, not_or] at hname
      have hsame : (s.taken value new).shape = old.shape := by
        rw [shape_taken, ← Option.some.injEq, ← hshape, Node.shape_of_field? hold hname.1]
      have hfield := Node.field?_withField hold hname.1 hname.2 hsame
      refine ⟨fun u helsewhere => ?_, fun other hother => ?_⟩
      · exact ((hreads hafter u helsewhere).2 _ _ hfield).congr fun _ _ => shows_taken hvalue
      · exact Node.field?_withField_other hold hname.1 hname.2 hsame hother
    · intro hnone
      exact Node.withField_of_none hnone (by rwa [shape_taken])
    · rintro tag rfl rfl
      exact ⟨Node.reshape_offered, Node.reshape_of_not_offered⟩

/-- The number of a literal is stored in a negation, and another one is then written to the literal. -/
theorem field_writes_operand :
    let s := { Globals.bare {} .discard {} with
      heap := ⟨#[.singlet "None", .map [], .map [], .expression (some (.ofForm (.unary 1 none))),
        .expression (some (.ofInt 7)), .string "expr", .string "ival", .int 9]⟩ }
    ∃ t u, ((machine {} 3).setIndex ⟨3⟩ ⟨5⟩ ⟨4⟩).run s = .ok () t ∧
      ((machine {} 3).setIndex ⟨4⟩ ⟨6⟩ ⟨7⟩).run t = .ok () u ∧
      u.payload ⟨4⟩ = .expression (some (.ofInt 9)) ∧
      u.Reads {} ⟨3⟩ "expr" (.expression (some (.ofInt 7))) := by
  intro s
  obtain ⟨after, t, hrun, -, -, -, hwritten, -⟩ := field_writes {} 2 s ⟨3⟩ ⟨5⟩ ⟨4⟩
    (.expression (.ofForm (.unary 1 none))) "expr" (.expression (some (.ofInt 7))) rfl rfl
    (by rintro _ ⟨⟩; exact ⟨rfl, rfl⟩) nofun
  let t' := ((machine {} 3).setIndex ⟨3⟩ ⟨5⟩ ⟨4⟩).final s
  obtain rfl : t = t' := by cases hrun; rfl
  have hlater : ((machine {} 3).setIndex ⟨4⟩ ⟨6⟩ ⟨7⟩).run t' = .ok () _ := rfl
  refine ⟨_, _, hrun, hlater, rfl, (hwritten _ rfl (by decide)).1 _ ?_⟩
  refine .write (.here _) (by decide) (.field rfl rfl ?_) (ending?_ok hlater)
  rintro _ ⟨⟩
  exact ⟨.int 9, rfl, rfl⟩

/-- The object that stands for no value may come to hold a string, and is then no name either. -/
theorem field_writes_nothing : ¬ ∀ (host : Host) (rounds : Nat) (s : State) (target key value : Ref)
    (node : Node) (name : String) (old new : Field), s.node? target = some node →
    s.payload key = .string name → node.field? name = some old → name ∉ ["kind", "type"] →
    new.shape = old.shape → s.Shows value new →
    ∃ t, ((machine host (rounds + 1)).setIndex target key value).run s = .ok () t ∧
      t.Reads host target name new := by
  intro hclaim
  let s₀ := { Globals.bare {} .discard {} with
    heap := ⟨#[.singlet "None", .map [], .map [], .expression (some (.ofForm (.function none [] none))),
      .string "name", .string "f"]⟩ }
  let s := { s₀ with heap := s₀.heap.swap ⟨0⟩ ⟨5⟩ }
  obtain ⟨t, hrun, hreads⟩ := hclaim {} 0 s ⟨3⟩ ⟨4⟩ ⟨0⟩
    (.expression (.ofForm (.function none [] none))) "name" (.name none) (.name (some "f")) rfl rfl rfl
    (by decide) rfl rfl
  obtain rfl : t = ((machine {} 1).setIndex ⟨3⟩ ⟨4⟩ ⟨0⟩).final s := by cases hrun; rfl
  obtain ⟨o, u, hread, hshown, -⟩ := (hreads ⟨4⟩ rfl 0).exists_run
  cases hread
  exact absurd (Payload.string.inj hshown) (by decide)

-- ---------------------------------------------------------------------------
-- What is read is written back
-- ---------------------------------------------------------------------------

/-- What is stored of an object that was made to show a field is what the field holds, but for a missing
name. -/
theorem State.taken_of_ne (h : value ≠ s.nothing) (held : Field) :
    (held ≠ .name none → s.taken value held = held) ∧
      (held = .name none → s.taken value held = .name (some "")) := by
  rcases held with _ | _ | _ | (_ | text) | _ <;> simp [taken, h]

/-- A field is read and written back without fail. The node is then what it was, unless the field was the
missing name of a function declaration, which becomes the empty name. -/
theorem field_written_back (host : Host) (rounds : Nat) (s : State) (target key : Ref) (node : Node)
    (name : String) (held : Field) (hnothing : s.heap.Contains s.nothing)
    (hnode : s.node? target = some node) (hkey : s.payload key = .string name)
    (hheld : node.field? name = some held) :
    ∃ value t u after, ((machine host (rounds + 1)).index target key).run s = .ok value t ∧
      ((machine host (rounds + 1)).setIndex target key value).run t = .ok () u ∧
      u.node? target = some after ∧ (∀ o, s.heap.Contains o → o ≠ target → u.payload o = s.payload o) ∧
      (held ≠ .name none → after = node) ∧
      (held = .name none → after.field? name = some (.name (some "")) ∧
        ∀ other, other ≠ name → after.field? other = node.field? other) := by
  have hends : ((machine host (rounds + 1)).index target key).Ends s
      (fun o t => s.Spawned t ∧ s.Since t o ∧ t.Shows o held) fun _ => False :=
    ends_index_node hnode hkey hheld
  obtain ⟨value, t, hread, hspawned, hsince, hshows⟩ := hends.exists_run
  have hnodeThen := hspawned.grown.node? hnode
  have hkeyThen := hspawned.grown.payload_eq hkey nofun
  have hnew : value ≠ t.nothing := by
    rw [hspawned.grown.rest]
    rintro rfl
    exact hsince.1 hnothing
  by_cases hkind : name = "kind"
  · subst hkind
    obtain ⟨_, _, hrun, rfl⟩ : ∃ (_ : Unit) (u : State),
        ((machine host (rounds + 1)).setIndex target key value).run t = .ok () u ∧ u = t :=
      ((ends_setIndex_unknown hnodeThen hkeyThen rfl).mpr rfl).exists_run
    refine ⟨value, _, _, node, hread, hrun, hnodeThen, ?_, fun _ => rfl, ?_⟩
    · exact fun o ho _ => hspawned.grown.kept o ho
    · rintro rfl
      cases hheld
  · have hshape := Node.shape_of_field? hheld hkind
    obtain ⟨_, _, hrun, rfl⟩ : ∃ (_ : Unit) (u : State),
        ((machine host (rounds + 1)).setIndex target key value).run t = .ok () u ∧
          u = t.withNode target (node.withField name (t.taken value held)) :=
      ((ends_setIndex_node hnodeThen hkeyThen hshape hshows).mpr rfl).exists_run
    obtain ⟨hsame, hblank⟩ := taken_of_ne hnew held
    refine ⟨value, t, _, _, hread, hrun, node?_withNode hnodeThen, ?_, fun h => ?_, fun h => ?_⟩
    · exact fun o ho hother => (payload_stored_other hother).trans (hspawned.grown.kept o ho)
    · rw [hsame h, Node.withField_field? hheld hkind]
    · have htype : name ≠ "type" := by
        rintro rfl
        cases hheld.trans (congrArg some h)
      rw [hblank h]
      subst h
      exact ⟨Node.field?_withField hheld hkind htype rfl, fun other hother =>
        Node.field?_withField_other hheld hkind htype rfl hother⟩

/-- The parameters and the body of a declaration and the arguments of a call are read and written back, and
so are an empty list of pairs and a missing child. -/
theorem field_written_back_filled :
    let body : Statement := .ofForm (.block [.ofExpression (.ofName "rest"), .ofResult (.ofName "x")])
    let declaration : Node := .expression (.ofForm (.function none ["x", "rest"] (some body)))
    let call : Node := .expression (.ofForm (.call (some (.ofName "f")) [.ofInt 7, .ofName "y"]))
    let entries : Node := .expression (.ofForm (.map []))
    let result : Node := .statement (.ofForm (.ret none))
    let s := { Globals.bare {} .discard {} with
      heap := ⟨#[.singlet "None", .map [], .map [], declaration.payload, call.payload, entries.payload,
        result.payload, .string "args", .string "body", .string "map", .string "ret"]⟩ }
    ∀ place ∈ [(⟨3⟩, ⟨7⟩, declaration), (⟨3⟩, ⟨8⟩, declaration), (⟨4⟩, ⟨7⟩, call), (⟨5⟩, ⟨9⟩, entries),
        ((⟨6⟩ : Ref), (⟨10⟩ : Ref), result)],
      ∃ value t u, ((machine {} 1).index place.1 place.2.1).run s = .ok value t ∧
        ((machine {} 1).setIndex place.1 place.2.1 value).run t = .ok () u ∧
        u.node? place.1 = some place.2.2 := by
  intro body declaration call entries result s
  have hback (target key : Ref) (node : Node) (name : String) (held : Field)
      (hnode : s.node? target = some node) (hkey : s.payload key = .string name)
      (hheld : node.field? name = some held) (hname : held ≠ .name none) :
      ∃ value t u, ((machine {} 1).index target key).run s = .ok value t ∧
        ((machine {} 1).setIndex target key value).run t = .ok () u ∧ u.node? target = some node := by
    obtain ⟨value, t, u, after, hread, hwrite, hafter, -, hsame, -⟩ :=
      field_written_back {} 0 s target key node name held (by decide) hnode hkey hheld
    exact ⟨value, t, u, hread, hwrite, hsame hname ▸ hafter⟩
  simp only [List.forall_mem_cons, List.not_mem_nil, false_implies, implies_true, and_true]
  exact ⟨hback ⟨3⟩ ⟨7⟩ declaration "args" (.names ["x", "rest"]) rfl rfl rfl nofun,
    hback ⟨3⟩ ⟨8⟩ declaration "body" (.statement (some body)) rfl rfl rfl nofun,
    hback ⟨4⟩ ⟨7⟩ call "args" (.expressions [.ofInt 7, .ofName "y"]) rfl rfl rfl nofun,
    hback ⟨5⟩ ⟨9⟩ entries "map" (.pairs []) rfl rfl rfl nofun,
    hback ⟨6⟩ ⟨10⟩ result "ret" (.expression none) rfl rfl rfl nofun⟩

/-- A missing name becomes an empty one. -/
theorem field_written_back_anonymous : ¬ ∀ (host : Host) (rounds : Nat) (s : State) (target key : Ref)
    (node : Node) (name : String) (held : Field), s.heap.Contains s.nothing →
    s.node? target = some node → s.payload key = .string name → node.field? name = some held →
    ∃ value t u, ((machine host (rounds + 1)).index target key).run s = .ok value t ∧
      ((machine host (rounds + 1)).setIndex target key value).run t = .ok () u ∧
      u.node? target = some node := by
  intro hclaim
  let s := { Globals.bare {} .discard {} with
    heap := ⟨#[.singlet "None", .map [], .map [], .expression (some (.ofForm (.function none [] none))),
      .string "name"]⟩ }
  obtain ⟨value, t, u, hread, hwrite, hsame⟩ := hclaim {} 0 s ⟨3⟩ ⟨4⟩
    (.expression (.ofForm (.function none [] none))) "name" (.name none) (by decide) rfl rfl rfl
  cases hread
  cases hwrite
  cases hsame

end ObjectModel
