import Mathlib.Logic.Basic
import ObjectModel.Code.Fields

/-!
# Reading and replacing the fields of a node

A field that was replaced holds the new value, all other fields hold what they held, and a field that is
replaced by what it holds leaves the node as it was. A node that was given another form is empty but for
its place.
-/

namespace ObjectModel

def Field.shape : Field → FieldShape
  | .int _ => .int
  | .float _ => .float
  | .text _ => .text
  | .name _ => .name
  | .position _ => .position
  | .expression _ => .expression
  | .statement _ => .statement
  | .expressions _ => .expressions
  | .statements _ => .statements
  | .names _ => .names
  | .pairs _ => .pairs

/-- What a field of a shape holds in an empty node. -/
def Field.blank : FieldShape → Field
  | .int => .int 0
  | .float => .float .zero
  | .text => .text ""
  | .name => .name none
  | .position => .position {}
  | .expression => .expression none
  | .statement => .statement none
  | .expressions => .expressions []
  | .statements => .statements []
  | .names => .names []
  | .pairs => .pairs []

variable {field other : String} {old new : Field} {tag : Int64}

-- ---------------------------------------------------------------------------
-- Forms
-- ---------------------------------------------------------------------------

namespace StatementForm

variable {form : StatementForm}

theorem withField_field? (h : form.field? field = some old) : form.withField field old = form := by
  unfold field? at h
  split at h <;> cases h <;> rfl

theorem field?_withField (h : form.field? field = some old) (hshape : new.shape = old.shape) :
    (form.withField field new).field? field = some new := by
  unfold field? at h
  split at h <;> cases h <;> cases new <;> cases hshape <;> rfl

theorem field?_withField_other (h : other ≠ field) (value : Field) :
    (form.withField field value).field? other = form.field? other := by
  unfold withField
  split <;> simp [field?, h]

theorem withField_of_none (h : form.field? field = none) (value : Field) :
    form.withField field value = form := by
  unfold withField
  split <;> first | rfl | cases h

theorem shape_of_field? (h : form.field? field = some old) (inDeclaration : Bool) :
    FieldShape.of? inDeclaration field = some old.shape := by
  unfold field? at h
  split at h <;> cases h <;> rfl

theorem tag_withField (form : StatementForm) (field : String) (value : Field) :
    (form.withField field value).tag = form.tag := by
  unfold withField
  split <;> rfl

/-- All fields are blank. -/
def IsEmpty (form : StatementForm) : Prop :=
  ∀ field value, form.field? field = some value → value = .blank value.shape

theorem isEmpty_of_empty? (h : empty? tag = some form) : form.tag = tag ∧ form.IsEmpty := by
  unfold empty? at h
  iterate 5
    rcases ite_eq_iff.mp h with ⟨htag, hform⟩ | ⟨-, h⟩
    · cases hform
      refine ⟨htag.symm, fun field value hfield => ?_⟩
      unfold field? at hfield
      split at hfield <;> cases hfield <;> cases ‹_ = (_ : StatementForm)›
      rfl
  cases h

theorem isSome_empty?_tag (form : StatementForm) : (empty? form.tag).isSome := by
  cases form <;> rfl

end StatementForm

namespace ExpressionForm

variable {form : ExpressionForm}

theorem withField_field? (h : form.field? field = some old) : form.withField field old = form := by
  cases form <;> simp only [field?] at h <;> split at h <;> cases h <;> subst_vars <;> rfl

theorem field?_withField (h : form.field? field = some old) (hshape : new.shape = old.shape) :
    (form.withField field new).field? field = some new := by
  cases form <;> simp only [field?] at h <;> split at h <;> cases h <;> subst_vars <;> cases new <;>
    cases hshape <;> rfl

theorem field?_withField_other (h : other ≠ field) (value : Field) :
    (form.withField field value).field? other = form.field? other := by
  cases form <;> simp only [withField] <;> split <;> simp only [field?] <;> split <;>
    first | rfl | contradiction

theorem withField_of_none (h : form.field? field = none) (value : Field) :
    form.withField field value = form := by
  cases form <;> simp only [withField] <;> split <;> first | rfl | cases h

theorem tag_withField (form : ExpressionForm) (field : String) (value : Field) :
    (form.withField field value).tag = form.tag := by
  cases form <;> simp only [withField] <;> split <;> rfl

/-- All fields are blank. -/
def IsEmpty (form : ExpressionForm) : Prop :=
  ∀ field value, form.field? field = some value → value = .blank value.shape

theorem isEmpty_of_empty? (h : empty? tag = some form) : form.tag = tag ∧ form.IsEmpty := by
  unfold empty? at h
  iterate 14
    rcases ite_eq_iff.mp h with ⟨htag, hform⟩ | ⟨-, h⟩
    · cases hform
      refine ⟨htag.symm, fun field value hfield => ?_⟩
      simp only [field?] at hfield
      split at hfield <;> cases hfield <;> rfl
  cases h

theorem isSome_empty?_tag (form : ExpressionForm) : (empty? form.tag).isSome := by
  cases form <;> rfl

end ExpressionForm

-- ---------------------------------------------------------------------------
-- Nodes
-- ---------------------------------------------------------------------------

namespace Node

variable {node : Node}

def withFormField (node : Node) (field : String) (value : Field) : Node :=
  match node with
  | .statement (.mk position form) => .statement (.mk position (form.withField field value))
  | .expression (.mk position form) => .expression (.mk position (form.withField field value))

def moved (node : Node) (position : Position) : Node :=
  match node with
  | .statement (.mk _ form) => .statement (.mk position form)
  | .expression (.mk _ form) => .expression (.mk position form)

def formField? (node : Node) (field : String) : Option Field :=
  match node with
  | .statement value => value.form.field? field
  | .expression value => value.form.field? field

section Replaced

variable (node : Node) (field : String) (value : Field) (place : Position)

theorem withField_position : node.withField field (.position place) = node.moved place := by
  unfold withField
  split
  · cases ‹Field.position place = _›
  · rcases node with ⟨⟨⟩⟩ | ⟨⟨⟩⟩ <;> cases ‹Field.position place = _› <;> rfl
  · exact (‹∀ position, Field.position place = _ → False› place rfl).elim

@[simp] theorem position_moved : (node.moved place).position = place := by
  rcases node with ⟨⟨⟩⟩ | ⟨⟨⟩⟩ <;> rfl

@[simp] theorem formField?_moved : (node.moved place).formField? field = node.formField? field := by
  rcases node with ⟨⟨⟩⟩ | ⟨⟨⟩⟩ <;> rfl

@[simp] theorem formTag_moved : (node.moved place).formTag = node.formTag := by
  rcases node with ⟨⟨⟩⟩ | ⟨⟨⟩⟩ <;> rfl

@[simp] theorem kindTag_moved : (node.moved place).kindTag = node.kindTag := by
  rcases node with ⟨⟨⟩⟩ | ⟨⟨⟩⟩ <;> rfl

@[simp] theorem position_withFormField : (node.withFormField field value).position = node.position := by
  rcases node with ⟨⟨⟩⟩ | ⟨⟨⟩⟩ <;> rfl

@[simp] theorem formTag_withFormField : (node.withFormField field value).formTag = node.formTag := by
  rcases node with ⟨⟨⟩⟩ | ⟨⟨⟩⟩
  · exact StatementForm.tag_withField ..
  · exact ExpressionForm.tag_withField ..

@[simp] theorem kindTag_withFormField : (node.withFormField field value).kindTag = node.kindTag := by
  rcases node with ⟨⟨⟩⟩ | ⟨⟨⟩⟩ <;> rfl

end Replaced

theorem field?_of_form (h : field ∉ ["kind", "type", "loc"]) :
    node.field? field = node.formField? field := by
  simp only [List.mem_cons, List.not_mem_nil, or_false, not_or] at h
  simp only [field?, h, if_false]
  rfl

/-- What a field holds depends on the kind, the form and the place, and on the field of the form. -/
theorem field?_congr {left right : Node} (hkind : left.kindTag = right.kindTag)
    (htag : left.formTag = right.formTag) (hplace : field = "loc" → left.position = right.position)
    (hform : left.formField? field = right.formField? field) :
    left.field? field = right.field? field := by
  by_cases hcommon : field ∈ ["kind", "type", "loc"]
  · simp only [List.mem_cons, List.not_mem_nil, or_false] at hcommon
    rcases hcommon with rfl | rfl | rfl <;> simp [field?, *]
  · rw [field?_of_form hcommon, field?_of_form hcommon, hform]

theorem shape_of_field? (h : node.field? field = some old) (hkind : field ≠ "kind") :
    FieldShape.of? node.isDeclaration field = some old.shape := by
  by_cases hcommon : field ∈ ["kind", "type", "loc"]
  · simp only [List.mem_cons, List.not_mem_nil, or_false, hkind, false_or] at hcommon
    rcases hcommon with rfl | rfl <;> cases h <;> rfl
  · rw [field?_of_form hcommon] at h
    rcases node with value | ⟨place, form⟩
    · exact StatementForm.shape_of_field? h _
    · simp only [formField?, Expression.form] at h
      cases form <;> simp only [ExpressionForm.field?] at h <;> split at h <;> cases h <;> subst_vars <;>
        rfl

theorem shape_ne_position {inDeclaration : Bool}
    (h : FieldShape.of? inDeclaration field = some new.shape) (hloc : field ≠ "loc") :
    new.shape ≠ .position := by
  intro hposition
  rw [hposition] at h
  unfold FieldShape.of? at h
  rw [if_neg hloc] at h
  (repeat' split at h) <;> cases h

theorem withField_form (htype : field ≠ "type") (hshape : new.shape ≠ .position) :
    node.withField field new = node.withFormField field new := by
  unfold withField
  split
  · contradiction
  · exact absurd rfl hshape
  · rcases node with ⟨⟨⟩⟩ | ⟨⟨⟩⟩ <;> rfl

section Replaced

variable (h : node.field? field = some old) (hkind : field ≠ "kind") (htype : field ≠ "type")
  (hshape : new.shape = old.shape)

include h hkind htype hshape

theorem withField_cases : (∃ place, field = "loc" ∧ new = .position place ∧
      node.withField field new = node.moved place) ∨
    (field ∉ ["kind", "type", "loc"] ∧ node.withField field new = node.withFormField field new) := by
  have hnew : FieldShape.of? node.isDeclaration field = some new.shape := by
    rw [hshape]
    exact shape_of_field? h hkind
  by_cases hloc : field = "loc"
  · subst hloc
    cases new <;> cases hnew
    exact .inl ⟨_, rfl, rfl, withField_position ..⟩
  · exact .inr ⟨by simp [hkind, htype, hloc], withField_form htype (shape_ne_position hnew hloc)⟩

theorem field?_withField : (node.withField field new).field? field = some new := by
  obtain ⟨place, rfl, rfl, hnode⟩ | ⟨hform, hnode⟩ := withField_cases h hkind htype hshape
  · simp [hnode, field?]
  · rw [hnode, field?_of_form hform]
    rw [field?_of_form hform] at h
    rcases node with ⟨⟨⟩⟩ | ⟨⟨⟩⟩
    · exact StatementForm.field?_withField h hshape
    · exact ExpressionForm.field?_withField h hshape

theorem field?_withField_other (hother : other ≠ field) :
    (node.withField field new).field? other = node.field? other := by
  obtain ⟨place, rfl, rfl, hnode⟩ | ⟨hform, hnode⟩ := withField_cases h hkind htype hshape
  · rw [hnode]
    exact field?_congr (by simp) (by simp) (absurd · hother) (by simp)
  · rw [hnode]
    refine field?_congr (by simp) (by simp) (by simp) ?_
    rcases node with ⟨⟨⟩⟩ | ⟨⟨⟩⟩
    · exact StatementForm.field?_withField_other hother new
    · exact ExpressionForm.field?_withField_other hother new

end Replaced

theorem withField_field? (h : node.field? field = some old) (hkind : field ≠ "kind") :
    node.withField field old = node := by
  by_cases htype : field = "type"
  · subst htype
    cases h
    exact if_pos rfl
  · obtain ⟨place, rfl, rfl, hnode⟩ | ⟨hform, hnode⟩ := withField_cases h hkind htype rfl
    · cases h
      rw [hnode]
      rcases node with ⟨⟨⟩⟩ | ⟨⟨⟩⟩ <;> rfl
    · rw [hnode]
      rw [field?_of_form hform] at h
      rcases node with ⟨⟨place, form⟩⟩ | ⟨⟨place, form⟩⟩
      · exact congrArg (fun form => statement (.mk place form)) (StatementForm.withField_field? h)
      · exact congrArg (fun form => expression (.mk place form)) (ExpressionForm.withField_field? h)

theorem withField_of_none (h : node.field? field = none)
    (hnew : FieldShape.of? node.isDeclaration field = some new.shape) :
    node.withField field new = node := by
  have hloc : field ≠ "loc" := by rintro rfl; cases h
  have htype : field ≠ "type" := by rintro rfl; cases h
  have hkind : field ≠ "kind" := by rintro rfl; cases h
  rw [field?_of_form (by simp [hloc, htype, hkind])] at h
  rw [withField_form htype (shape_ne_position hnew hloc)]
  rcases node with ⟨⟨place, form⟩⟩ | ⟨⟨place, form⟩⟩
  · exact congrArg (fun form => statement (.mk place form)) (StatementForm.withField_of_none h new)
  · exact congrArg (fun form => expression (.mk place form)) (ExpressionForm.withField_of_none h new)

-- ---------------------------------------------------------------------------
-- Other forms
-- ---------------------------------------------------------------------------

/-- All fields but those of the place and the form are blank. -/
def IsEmpty (node : Node) : Prop :=
  ∀ field value, node.formField? field = some value → value = .blank value.shape

/-- A number that some node of the same kind has for its form. -/
def Offers (node : Node) (tag : Int64) : Prop :=
  ∃ other : Node, other.kindTag = node.kindTag ∧ other.formTag = tag

/-- The node becomes an empty one of the other form, at the same place. -/
theorem reshape_offered (h : node.Offers tag) (hother : tag ≠ node.formTag) :
    (node.reshape tag).kindTag = node.kindTag ∧ (node.reshape tag).formTag = tag ∧
      (node.reshape tag).position = node.position ∧ (node.reshape tag).IsEmpty := by
  obtain ⟨model, hkind, rfl⟩ := h
  unfold reshape
  rw [if_neg hother]
  rcases node with ⟨⟨place, form⟩⟩ | ⟨⟨place, form⟩⟩ <;>
    rcases model with ⟨⟨_, made⟩⟩ | ⟨⟨_, made⟩⟩ <;> cases hkind
  · obtain ⟨new, hnew⟩ := Option.isSome_iff_exists.mp (StatementForm.isSome_empty?_tag made)
    obtain ⟨htag, hempty⟩ := StatementForm.isEmpty_of_empty? hnew
    simp only [formTag, Statement.form, hnew]
    exact ⟨rfl, htag, rfl, hempty⟩
  · obtain ⟨new, hnew⟩ := Option.isSome_iff_exists.mp (ExpressionForm.isSome_empty?_tag made)
    obtain ⟨htag, hempty⟩ := ExpressionForm.isEmpty_of_empty? hnew
    simp only [formTag, Expression.form, hnew]
    exact ⟨rfl, htag, rfl, hempty⟩

/-- The node stays as it is for its own number, and for one that no node of the kind has. -/
theorem reshape_of_not_offered (h : ¬ node.Offers tag ∨ tag = node.formTag) :
    node.reshape tag = node := by
  unfold reshape
  split
  · rfl
  · have hoffers : ¬ node.Offers tag := h.resolve_right ‹_›
    split
    · split
      · rename_i form hform
        exact absurd ⟨statement (.mk {} form), rfl, (StatementForm.isEmpty_of_empty? hform).1⟩ hoffers
      · rfl
    · split
      · rename_i form hform
        exact absurd ⟨expression (.mk {} form), rfl, (ExpressionForm.isEmpty_of_empty? hform).1⟩ hoffers
      · rfl

theorem kindTag_reshape (node : Node) (tag : Int64) : (node.reshape tag).kindTag = node.kindTag := by
  unfold reshape
  split
  · rfl
  · split <;> split <;> rfl

theorem kindTag_withField (node : Node) (field : String) (value : Field) :
    (node.withField field value).kindTag = node.kindTag := by
  unfold withField
  split
  · exact kindTag_reshape ..
  · split <;> rfl
  · split <;> rfl

end Node

end ObjectModel
