import ObjectModel.Interpreter
import ObjectModel.Proofs.Laws.Machines
import ObjectModel.Proofs.Rendering.Outlines

/-!
# Answers with a text

Whoever is asked for its text makes a string, and may make objects and note containers on the way, but
changes nothing that was there (`State.Grown`). Objects that are no containers all answer
(`answers_leaf`, `answers_quoted`).
-/

namespace ObjectModel

open Std (TreeSet)

namespace State

/-- More objects were made, and the note of shown containers is another. -/
structure Grown (s t : State) (note : Option (TreeSet Nat)) : Prop where
  rest : t = { s with heap := t.heap, shown := note }
  kept : ∀ o, s.heap.Contains o → t.payload o = s.payload o
  size : s.heap.size ≤ t.heap.size

def seen (s : State) : TreeSet Nat := s.shown.getD ∅

namespace Grown

variable {s t u : State} {note later : Option (TreeSet Nat)}

theorem refl (s : State) : s.Grown s s.shown := ⟨rfl, fun _ _ => rfl, Nat.le_refl _⟩

theorem shown (h : s.Grown t note) : t.shown = note := by rw [h.rest]

theorem trans (h : s.Grown t note) (h' : t.Grown u later) : s.Grown u later where
  rest := by rw [h'.rest, h.rest]
  kept o ho := (h'.kept o (Nat.lt_of_lt_of_le ho h.size)).trans (h.kept o ho)
  size := Nat.le_trans h.size h'.size

theorem made (s : State) (payload : Payload) : s.Grown (s.made payload) s.shown where
  rest := rfl
  kept o ho := Heap.get_push_old s.heap payload o ho
  size := by
    unfold State.made Heap.size Heap.push
    rw [Array.size_push]
    exact Nat.le_succ _

theorem thenMade (h : s.Grown t note) (payload : Payload) : s.Grown (t.made payload) note :=
  h.trans (h.shown ▸ .made t payload)

theorem thenGrown (h : s.Grown t note) (h' : t.Grown u t.shown) : s.Grown u note :=
  h.trans (h.shown ▸ h')

theorem unheld {objects : List (List Ref)} (h : State.Grown { s with held := objects } t note) :
    s.Grown { t with held := s.held } note where
  rest := by rw [h.rest]
  kept := h.kept
  size := h.size

theorem renoted (h : State.Grown { s with shown := note } t later) (last : Option (TreeSet Nat)) :
    s.Grown { t with shown := last } last where
  rest := by rw [h.rest]
  kept := h.kept
  size := h.size

end Grown

end State

-- ---------------------------------------------------------------------------
-- Actions that give a text
-- ---------------------------------------------------------------------------

/-- The action gives a text, and the note of shown containers is then `note`. -/
def Action.Tells (action : Action String) (s : State) (text : String)
    (note : Option (TreeSet Nat)) : Prop :=
  ∃ t, action.run s = .ok text t ∧ s.Grown t note

/-- The action gives a string object of a text. -/
def Action.Answers (action : Action Ref) (s : State) (text : String)
    (note : Option (TreeSet Nat)) : Prop :=
  ∃ a t, action.run s = .ok a t ∧ t.payload a = .string text ∧ s.Grown t note

namespace Action

variable {s : State} {text : String} {note : Option (TreeSet Nat)}

theorem Answers.made {action : Action Ref}
    (h : action.run s = .ok s.heap.next (s.made (.string text))) :
    action.Answers s text s.shown :=
  ⟨_, _, h, payload_made_next s _, .made s _⟩

theorem Answers.of_run {action other : Action Ref} (h : action.run s = other.run s)
    (hother : other.Answers s text note) : action.Answers s text note := by
  obtain ⟨a, t, hrun, hanswer⟩ := hother
  exact ⟨a, t, h.trans hrun, hanswer⟩

theorem Tells.of_run {action other : Action String} (h : action.run s = other.run s)
    (hother : other.Tells s text note) : action.Tells s text note := by
  obtain ⟨t, hrun, hgrown⟩ := hother
  exact ⟨t, h.trans hrun, hgrown⟩

theorem Tells.answer {action : Action String} (h : action.Tells s text note) :
    Answers (action >>= createString) s text note := by
  obtain ⟨t, hrun, hgrown⟩ := h
  refine ⟨t.heap.next, t.made (.string text), ?_, payload_made_next t _, ?_⟩
  · rw [EStateM.run_bind, hrun]
    rfl
  · exact hgrown.thenMade _

theorem Answers.expect {action : Action Ref} (h : action.Answers s text note) :
    Tells (action >>= Dispatcher.expectText) s text note := by
  obtain ⟨a, t, hrun, htext, hgrown⟩ := h
  refine ⟨t, ?_, hgrown⟩
  rw [EStateM.run_bind, hrun]
  simp only [Dispatcher.expectText, EStateM.run_bind, run_payload, htext, EStateM.run_pure]

theorem Tells.holding {action : Action String} {objects : List Ref}
    (h : action.Tells { s with held := objects :: s.held } text note) :
    Tells (holding objects action) s text note := by
  obtain ⟨t, hrun, hgrown⟩ := h
  refine ⟨_, ?_, hgrown.unheld⟩
  rw [run_holding, hrun]

theorem Answers.holding {action : Action Ref} {objects : List Ref}
    (h : action.Answers { s with held := objects :: s.held } text note) :
    Answers (holding objects action) s text note := by
  obtain ⟨a, t, hrun, htext, hgrown⟩ := h
  refine ⟨a, _, ?_, ?_, hgrown.unheld⟩
  · rw [run_holding, hrun]
  · exact htext

end Action

-- ---------------------------------------------------------------------------
-- Objects that are no containers
-- ---------------------------------------------------------------------------

open ObjectModel.Action Behavior

variable {s : State} {o : Ref}

theorem behave_succ {kind : Kind} {operation : Operation} (handler : Handler) (host : Host)
    (rounds : Nat) (args : List Ref) (h : kind.handler operation = some handler) :
    behave host (rounds + 1) kind operation args = handler (machine host rounds) args := by
  unfold behave
  rw [h]
  rfl

theorem Action.Answers.of_handler {kind : Kind} {operation : Operation} {text : String}
    (handler : Handler) (host : Host) (rounds : Nat) (args : List Ref)
    (h : kind.handler operation = some handler)
    (hrun : (handler (machine host rounds) args).run s =
      .ok s.heap.next (s.made (.string text))) :
    (behave host (rounds + 1) kind operation args).Answers s text s.shown := by
  rw [behave_succ handler host rounds args h]
  exact .made hrun

theorem answers_leaf (host : Host) (rounds : Nat) (rest : List Ref) (h : s.contents? o = none) :
    (behave host (rounds + 1) (s.kind o) .toText (o :: rest)).Answers s (s.plainText o) s.shown := by
  have hsubject : (argument (o :: rest) 0).run s = .ok o s := rfl
  unfold State.kind State.plainText
  unfold State.contents? at h
  cases hp : s.payload o with
  | list | map | cell => rw [hp] at h; cases h
  | string value => exact ⟨o, s, rfl, hp, .refl s⟩
  | library | symbol | stream =>
    exact .of_handler _ host rounds _ rfl rfl
  | singlet name =>
    refine .of_handler Singlets.toText host rounds _ rfl ?_
    simp only [Singlets.toText, Singlets.nameOf, EStateM.run_bind, hsubject, run_payload, hp]
    rfl
  | int value =>
    have hvalue : (Numbers.intOrZero (o :: rest)).run s = .ok value s := by
      simp only [Numbers.intOrZero, EStateM.run_bind, EStateM.run_pure, hsubject, run_payload, hp,
        Payload.int?, Option.getD_some]
    refine .of_handler Numbers.intToText host rounds _ rfl ?_
    unfold Numbers.intToText
    rw [EStateM.run_bind, hvalue]
    exact run_createString _ s
  | float value =>
    refine .of_handler Numbers.floatToText host rounds _ rfl ?_
    simp only [Numbers.floatToText, Numbers.floatOrZero, EStateM.run_bind, hsubject, run_payload, hp]
    rfl
  | function made =>
    refine .of_handler Functions.toText host rounds _ rfl ?_
    simp only [Functions.toText, EStateM.run_bind, hsubject, run_payload, hp]
    cases hname : made.name <;> simp only [Payload.function?, Option.bind_some, hname] <;> rfl
  | native function =>
    refine .of_handler Natives.toText host rounds _ rfl ?_
    simp only [Natives.toText, EStateM.run_bind, hsubject, run_payload, hp]
    rfl
  | statement node =>
    refine .of_handler Nodes.toText host rounds _ rfl ?_
    simp only [Nodes.toText, EStateM.run_bind, hsubject, run_payload, hp]
    cases node <;> rfl
  | expression node =>
    refine .of_handler Nodes.toText host rounds _ rfl ?_
    simp only [Nodes.toText, EStateM.run_bind, hsubject, run_payload, hp]
    cases node <;> rfl
  | buffer window =>
    refine .of_handler Buffers.toText host rounds _ rfl ?_
    simp only [Buffers.toText, Buffers.textOf, EStateM.run_bind, hsubject, run_payload, hp]
    rfl

theorem answers_quoted (host : Host) (rounds : Nat) (rest : List Ref) (h : s.contents? o = none) :
    (behave host (rounds + 2) (s.kind o) .represent (o :: rest)).Answers s (s.quotedText o) s.shown := by
  have hsubject : (argument (o :: rest) 0).run s = .ok o s := rfl
  -- Other objects are asked for their text, which needs a second round.
  have hshared (hhandler : (s.kind o).handler .represent = some Shared.represent)
      (hquoted : s.quotedText o = s.plainText o) :
      (behave host (rounds + 2) (s.kind o) .represent (o :: rest)).Answers s (s.quotedText o)
        s.shown := by
    rw [behave_succ _ host (rounds + 1) _ hhandler, hquoted]
    have hrun : (Shared.represent (machine host (rounds + 1)) (o :: rest)).run s =
        (holding [o] ((machine host (rounds + 1)).unary .toText o)).run s := by
      rw [Shared.represent, EStateM.run_bind, hsubject]
    have hheld := answers_leaf (s := { s with held := [o] :: s.held }) host rounds [] h
    exact .of_run hrun (.holding (.of_run (Dispatcher.run_dispatch ..) hheld))
  unfold State.kind State.quotedText at hshared ⊢
  unfold State.contents? at h
  cases hp : s.payload o with
  | list | map | cell => rw [hp] at h; cases h
  | string value =>
    refine .of_handler Strings.represent host _ _ rfl ?_
    simp only [Strings.represent, Strings.ofArgument, EStateM.run_bind, hsubject, run_payload, hp]
    rfl
  | buffer window =>
    refine .of_handler Buffers.represent host _ _ rfl ?_
    simp only [Buffers.represent, Buffers.textOf, EStateM.run_bind, hsubject, run_payload, hp]
    rfl
  | _ =>
    rw [hp] at hshared
    exact hshared rfl rfl

end ObjectModel
