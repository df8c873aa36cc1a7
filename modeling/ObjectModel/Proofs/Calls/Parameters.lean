import ObjectModel.Proofs.Calls.Context
import ObjectModel.Proofs.Errors.Imbalance
import ObjectModel.Proofs.Operators.Undisturbed
import ObjectModel.Proofs.Scopes.Assignments

/-!
# Parameters

The arguments of a call are bound in a new scope: each parameter to the argument in its place, and the rest
to a new list of those that are left over (`Functions.ends_bind_values`). The body of the function finds
them there, and leaves the scopes of the caller behind (`parameters_bound`).
-/

namespace ObjectModel

open ObjectModel.Action Behavior

namespace State

structure OpenScope (s : State) (scope : Ref) (t : State) : Prop extends s.NewScope scope t where
  map : t.MadeMap scope

/-- The arguments are bound in a scope: each parameter to the argument in its place, or to no value if there
is none, and the rest to a new list of the arguments that are left over. -/
structure BindsArguments (s : State) (function : Function) (args : List Ref) (scope : Ref) (t : State) :
    Prop where
  params : ∀ (i : Nat) name, function.params[i]? = some name →
    t.named? scope name = some (args[i]?.getD s.nothing)
  rest : ∀ name, function.rest = some name → ∃ list, ¬ s.heap.Contains list ∧
    t.payload list = .list (args.drop function.params.length).toArray ∧ t.named? scope name = some list
  others : ∀ name, name ∉ function.params ++ function.rest.toList → t.named? scope name = none

variable {s t : State} {scope : Ref} {name : String}

theorem OpenScope.like (h : s.OpenScope scope t) : s.Like t := (Like.refl s).grown h.grown

theorem OpenScope.initial (s : State) : s.OpenScope s.heap.next (s.made (.map [])) := by
  have hcells : (s.made (.map [])).cells s.heap.next = [] := by simp [cells, payload_made_next]
  refine ⟨⟨.made s _, contains_made_next .., not_contains_next (Nat.le_refl _), by simp [hcells]⟩, ?_,
    by simp [hcells]⟩
  rw [State.kind, payload_made_next, Payload.kind]

theorem OpenScope.thenMade (h : s.OpenScope scope t) (payload : Payload) :
    s.OpenScope scope (t.made payload) :=
  ⟨h.toNewScope.thenMade payload, h.map.like ((Like.refl t).grown (.made t payload))⟩

theorem OpenScope.named?_made (h : s.OpenScope scope t) (payload : Payload) (name : String) :
    (t.made payload).named? scope name = t.named? scope name :=
  ((Like.refl t).grown (Grown.made t payload)).named?_eq h.made h.map.cells name

end State

theorem Map.ends_setNamed_open {s t : State} {scope : Ref} (h : s.OpenScope scope t) (name : String)
    (value : Ref) : (setNamed scope name value).Ends t
      (fun _ u => s.OpenScope scope u ∧ u.named? scope name = some value ∧
        (∀ other, other ≠ name → u.named? scope other = t.named? scope other) ∧
        ∀ o, t.kind o = .list → u.payload o = t.payload o)
      fun _ => False := by
  obtain ⟨_, u, hrun, hscope⟩ := (ends_setNamed_new h.toNewScope name value).exists_run
  have hputs := (ends_of_run hrun).mp (ends_setNamed h.map.kind name value)
  refine (ends_of_run hrun).mpr ⟨⟨hscope, ?_⟩, ?_, ?_, ?_⟩
  · refine hputs.madeMap h.map.kind h.map.cells fun key hkey => ?_
    exact State.contains_of_kind_ne (by simp [State.kind_of_payload hkey, Payload.kind])
  · exact hputs.named?_self h.map
  · exact fun other hother => hputs.named?_other h.map h.made h.map.cells hother
  · intro o hlist
    refine hputs.kept o (State.contains_of_kind_ne (by simp [hlist])) ?_
    rintro rfl
    obtain ⟨-, hkind⟩ := hputs.kind_place h.map.kind
    simp [hlist] at hkind

namespace Behavior.Functions

variable {s t : State} {scope : Ref}

theorem ends_bindParams_values (h : s.OpenScope scope t) (params : List String) (args : List Ref)
    (hnames : params.Nodup) : (bindParams scope params args).Ends t
      (fun surplus u => surplus = args.drop params.length ∧ s.OpenScope scope u ∧
        (∀ (i : Nat) name, params[i]? = some name →
          u.named? scope name = some (args[i]?.getD s.nothing)) ∧
        ∀ name, name ∉ params → u.named? scope name = t.named? scope name)
      fun _ => False := by
  induction params generalizing args t with
  | nil => exact ⟨rfl, h, by simp, fun _ _ => rfl⟩
  | cons param params ih =>
    obtain ⟨hparam, hparams⟩ := List.nodup_cons.mp hnames
    have hnothing : t.nothing = s.nothing := by rw [h.grown.rest]
    -- Both ways go on with what is left after the first argument.
    have hstep (arg : Ref) (later : List Ref) (harg : arg = args[0]?.getD s.nothing)
        (hlater : later = args.tail) :
        (do Map.setNamed scope param arg; bindParams scope params later : Action (List Ref)).Ends t
          (fun surplus u => surplus = args.drop (param :: params).length ∧ s.OpenScope scope u ∧
            (∀ (i : Nat) name, (param :: params)[i]? = some name →
              u.named? scope name = some (args[i]?.getD s.nothing)) ∧
            ∀ name, name ∉ param :: params → u.named? scope name = t.named? scope name)
          fun _ => False := by
      rw [Action.ends_bind]
      refine (Map.ends_setNamed_open h param arg).imp_value fun _ u ⟨hopen, hself, hothers, _⟩ => ?_
      refine (ih hopen later hparams).imp_value fun surplus v ⟨hsurplus, hopen', hvalues, hrest⟩ => ?_
      refine ⟨?_, hopen', fun i name hname => ?_, fun name hname => ?_⟩
      · rw [hsurplus, hlater, List.drop_tail, List.length_cons]
      · cases i with
        | zero =>
          obtain rfl : param = name := by simpa using hname
          rw [hrest param hparam, hself, harg]
        | succ i =>
          rw [hvalues i name (by simpa using hname), hlater, List.getElem?_tail]
      · rw [hrest name fun hmem => hname (List.mem_cons_of_mem _ hmem)]
        exact hothers name fun hsame => hname (hsame ▸ List.mem_cons_self)
    cases args with
    | nil =>
      simp only [bindParams, Action.ends_bind, ends_nothing]
      exact (Action.ends_bind ..).mp (hstep t.nothing [] hnothing rfl)
    | cons arg args => exact hstep arg args rfl rfl

theorem ends_bind_values (function : Function) (args : List Ref)
    (hnames : (function.params ++ function.rest.toList).Nodup) : (bind function args).Ends s
      (fun scope t => s.OpenScope scope t ∧ s.BindsArguments function args scope t) fun _ => False := by
  obtain ⟨hparams, -, hdisjoint⟩ := List.nodup_append.mp hnames
  have hempty (name : String) : (s.made (.map [])).named? s.heap.next name = none := by
    simp [State.named?, State.findNamed?, State.cells, payload_made_next]
  simp only [bind, createMap, Action.ends_bind, ends_create]
  refine (ends_bindParams_values (.initial s) function.params args hparams).imp_value ?_
  rintro _ t ⟨rfl, hopen, hvalues, hothers⟩
  cases hrest : function.rest with
  | none =>
    refine ⟨hopen, hvalues, by simp [hrest], fun name hname => ?_⟩
    rw [hothers name fun hmem => hname (List.mem_append_left _ hmem), hempty]
  | some rest =>
    simp only [createList, Action.ends_bind, ends_create, ends_pure]
    refine (Map.ends_setNamed_open (hopen.thenMade _) rest _).imp_value ?_
    rintro _ u ⟨hopen', hself, hothers', hlists⟩
    have hlist := payload_made_next t (.list (args.drop function.params.length).toArray)
    refine ⟨hopen', fun i name hname => ?_, fun name hname => ?_, fun name hname => ?_⟩
    · have hne : name ≠ rest := hdisjoint name (List.mem_of_getElem? hname) rest (by simp [hrest])
      rw [hothers' name hne, hopen.named?_made, hvalues i name hname]
    · obtain rfl : rest = name := by simpa [hrest] using hname
      refine ⟨t.heap.next, State.not_contains_next hopen.grown.size, ?_, hself⟩
      rw [hlists _ (State.kind_of_payload hlist), hlist]
    · simp only [hrest, Option.toList_some, List.mem_append, List.mem_singleton, not_or] at hname
      rw [hothers' name hname.2, hopen.named?_made, hothers name hname.1, hempty]

end Behavior.Functions

-- ---------------------------------------------------------------------------
-- Assignments in a body
-- ---------------------------------------------------------------------------

/-- A run of code leaves the scopes as they were. -/
def Evaluator.Balanced (trees : Evaluator) (run : Dispatcher) : Prop :=
  ∀ statement s e t, s.scopes ≠ [] → (trees.execute run statement).ending? s = some (e, t) →
    t.scopes = s.scopes

theorem Host.balanced (host : Host) [hhost : Host.Obeys .context host] (rounds : Nat) {trees : Evaluator}
    (htrees : host.evaluator = some trees) : trees.Balanced (machine host rounds).toDispatcher := by
  intro statement s e t hne hrun
  exact ((hhost.executes htrees (machine host rounds).toDispatcher statement).holds hrun hne).scopes

namespace State

/-- Names are assigned inside other scopes, where the innermost one is none of them. Whatever else happens
does not bind the name in one of them. -/
inductive Assigns (outer : List Ref) (name : String) (s : State) : State → Prop
  | start : Assigns outer name s s
  | assign {t u : State} {scope value : Ref} {inner : List Ref} {other : String}
      (h : Assigns outer name s t) (hwhole : t.Whole) (hscopes : t.scopes = scope :: (inner ++ outer))
      (hscope : scope ∉ outer) (hrun : (setVariable other value).run t = .ok () u) :
      Assigns outer name s u
  | meanwhile {t u : State} (h : Assigns outer name s t)
      (hkept : ∀ o ∈ outer, t.named? o name = none → u.named? o name = none) : Assigns outer name s u

instance (s : State) : Decidable s.Whole :=
  decidable_of_iff (s.Closed ∧ ∀ o ∈ s.roots, s.heap.Contains o)
    ⟨fun h => ⟨h.1, h.2⟩, fun h => ⟨h.closed, h.roots⟩⟩

variable {s t u : State} {outer : List Ref} {name : String} {scope value : Ref}

theorem Whole.made_scope (h : s.Whole) (hscope : scope ∈ s.scopes) : s.heap.Contains scope :=
  h.roots scope (by simp [State.roots, hscope])

/-- An assignment inside other scopes does not bind a name there that was not bound there. -/
theorem Whole.unbound_setVariable (hwhole : t.Whole) {inner : List Ref}
    (hscopes : t.scopes = scope :: (inner ++ outer)) (hscope : scope ∉ outer) {other : String}
    (hrun : (setVariable other value).run t = .ok () u) (hunbound : ∀ o ∈ outer, t.named? o name = none) :
    ∀ o ∈ outer, u.named? o name = none := by
  intro o ho
  have hin : t.heap.Contains o := hwhole.made_scope (by simp [hscopes, ho])
  have hcells := hwhole.closed.madeCells o
  have hreceives : t.Receives other (t.assignmentScope other) :=
    receives_assignmentScope (by simp [hscopes]) other
  have hset : (Map.setNamed (t.assignmentScope other) other value).run t = .ok () u := hrun
  by_cases hmap : t.kind (t.assignmentScope other) = .map
  · have hputs := (ends_of_run hset).mp (Map.ends_setNamed hmap other value)
    have htarget := hwhole.closed.madeMap hmap
    by_cases hother : name = other
    · subst hother
      -- The scope that is assigned to binds the name already, or is the innermost one.
      have hne : o ≠ t.assignmentScope name := by
        rintro rfl
        cases hreceives with
        | bound _ _ hold => cases (hunbound _ ho).symm.trans hold
        | unbound hinnermost =>
          obtain ⟨hsame, -⟩ := List.cons.inj (hinnermost.symm.trans hscopes)
          exact hscope (hsame ▸ ho)
      exact hputs.named?_unbound htarget hin hcells hne (hunbound o ho)
    · rw [hputs.named?_other htarget hin hcells hother, hunbound o ho]
  · have hgrown := (ends_of_run hset).mp
      (Map.ends_setNamed_of_kind (hwhole.made_scope hreceives.mem) hmap other value)
    rw [((Like.refl t).grown hgrown).named?_eq hin hcells, hunbound o ho]

theorem Assigns.unbound (h : s.Assigns outer name u) (hunbound : ∀ o ∈ outer, s.named? o name = none) :
    ∀ o ∈ outer, u.named? o name = none := by
  induction h with
  | start => exact hunbound
  | assign _ hwhole hscopes hscope hrun ih => exact hwhole.unbound_setVariable hscopes hscope hrun ih
  | meanwhile _ hkept ih => exact fun o ho => hkept o ho (ih o ho)

theorem Whole.unbound_after (h : u.Whole) (hlike : u.Like t) (hscopes : t.scopes ⊆ u.scopes)
    (hunbound : ∀ o ∈ t.scopes, u.named? o name = none) : t.valueOf? name = none := by
  rw [valueOf?, List.findSome?_eq_none_iff]
  intro o ho
  rw [hlike.named?_eq (h.made_scope (hscopes ho)) (h.closed.madeCells o), hunbound o ho]

end State

-- ---------------------------------------------------------------------------
-- Calls
-- ---------------------------------------------------------------------------

variable {s t u : State} {callee scope closure : Ref} {args : List Ref} {host : Host} {rounds : Nat}
  {function : Function} {trees : Evaluator} {e : Ending}

theorem State.Whole.valueOf?_called (hwhole : s.Whole) (hlike : s.Like t)
    (hclosure : s.heap.Contains closure) (hscopes : t.scopes = scope :: closure :: s.scopes)
    (name : String) : t.valueOf? name =
      (t.named? scope name).or ((s.named? closure name).or (s.valueOf? name)) := by
  have hkept (o : Ref) (ho : s.heap.Contains o) : t.named? o name = s.named? o name :=
    hlike.named?_eq ho (hwhole.closed.madeCells o) name
  have houter : s.scopes.findSome? (fun o => t.named? o name) = s.valueOf? name := by
    rw [← List.head?_filterMap, List.filterMap_congr fun o ho => hkept o (hwhole.made_scope ho),
      List.head?_filterMap]
    rfl
  rw [State.valueOf?, hscopes, List.findSome?_cons, List.findSome?_cons, houter, hkept closure hclosure]
  cases t.named? scope name <;> cases s.named? closure name <;> rfl

theorem ending?_inScopes {action : Action Ref} (hne : s.scopes ≠ [])
    (hrun : action.ending? ((s.inside closure).inside scope) = some (e, u))
    (hscopes : u.scopes = scope :: closure :: s.scopes) :
    (inScope closure (inScope scope action)).ending? s = some (e, { u with scopes := s.scopes }) := by
  have hrun : action.ending? { s with scopes := scope :: closure :: s.scopes } = some (e, u) := hrun
  simp only [ending?_inScope, hrun, Option.map_some]
  rw [State.unscoped_of_scopes hscopes (List.cons_ne_nil _ _), State.unscoped_of_scopes rfl hne]

/-- When code has come to an end in a frame, its frame is taken away. The objects are what they were, but
for those made to say that the frames are out of balance, if they are. -/
theorem ending?_inFrame_of_run {action : Action Ref} (hroom : s.room ≠ 0)
    (hrun : action.ending? (s.framed callee) = some (e, u)) :
    ∃ after t, (inFrame callee action).ending? s = some (after, t) ∧ t.scopes = u.scopes ∧ u.Like t ∧
      (u.frames = callee :: s.frames → after = e ∧ t = { u with frames := s.frames }) := by
  have hdeep : ¬ s.limits.depth ≤ s.depth := fun hfull => hroom ((State.room_eq_zero s).mpr hfull)
  have hrun : action.ending? { s with frames := callee :: s.frames } = some (e, u) := hrun
  simp only [ending?_inFrame, if_neg hdeep, ending?_followedBy, hrun, Option.bind_some, ending?_popFrame,
    Option.map_some]
  by_cases htop : u.frames.head? = some callee
  · rw [if_pos htop]
    refine ⟨_, _, rfl, rfl, ⟨rfl, rfl, fun _ _ => rfl, Nat.le_refl _⟩, fun hframes => ⟨rfl, ?_⟩⟩
    simp only [hframes, List.tail_cons]
  · rw [if_neg htop]
    have hgrown := (State.raised_faulting { u with frames := u.frames.tail } .frameImbalance).grown
    refine ⟨_, _, rfl, rfl, ⟨rfl, rfl, hgrown.kept, hgrown.size⟩, fun hframes => ?_⟩
    exact absurd (by rw [hframes, List.head?_cons]) htop

theorem start?_of_bind (hp : s.payload callee = .function function) (htrees : host.evaluator = some trees)
    (hroom : s.room ≠ 0)
    (hbound : (Functions.bind function args).run (s.calling callee args) = .ok scope t) :
    host.start? s callee args = some {
      state := (((t.withHeld ([callee] :: t.held)).framed callee).inside function.closure).inside scope
      code rounds := trees.execute (machine host rounds).toDispatcher function.body } := by
  simp only [Host.start?, hp, htrees, hbound, if_neg hroom]

theorem ending?_call_function (hp : s.payload callee = .function function)
    (htrees : host.evaluator = some trees) (hroom : s.room ≠ 0) (hne : s.scopes ≠ [])
    {start : Start} (hstart : host.start? s callee args = some start)
    (hrun : (start.code rounds).ending? start.state = some (e, u))
    (hscopes : u.scopes = start.state.scopes) :
    ∃ after t, ((machine host (rounds + 1)).call callee args).ending? s = some (after, t) ∧
      t.scopes = s.scopes ∧ u.Like t ∧ (u.frames = start.state.frames →
        after = e ∧ t = { u with scopes := s.scopes, frames := s.frames, held := s.held }) := by
  obtain ⟨scope, b, hbound, hscope⟩ :=
    (Functions.ends_bind (s := s.calling callee args) function args).exists_run
  obtain rfl := Option.some.inj ((start?_of_bind hp htrees hroom hbound).symm.trans hstart)
  have hbscopes : b.scopes = s.scopes := by rw [hscope.grown.rest]; rfl
  have hbframes : b.frames = s.frames := by rw [hscope.grown.rest]; rfl
  have hbroom : (b.withHeld ([callee] :: b.held)).room ≠ 0 := by
    rw [State.room_withHeld, hscope.grown.room]
    exact hroom
  have hbne : ((b.withHeld ([callee] :: b.held)).framed callee).scopes ≠ [] := by
    show b.scopes ≠ []
    rwa [hbscopes]
  obtain ⟨after, t, hframe, htscopes, hlike, hframes⟩ :=
    ending?_inFrame_of_run hbroom (ending?_inScopes hbne hrun hscopes)
  refine ⟨after, t.withHeld s.held, ?_, htscopes.trans hbscopes, ⟨hlike.memory, hlike.nothing, hlike.kept,
    hlike.size⟩, fun hleft => ?_⟩
  · rw [ending?_eq_some_iff, ends_call_function hp htrees hbound]
    refine (ending?_eq_some_iff.mp hframe).imp ?_ ?_
    · rintro a v ⟨hvalue, rfl⟩
      exact ⟨hvalue, rfl⟩
    · rintro v ⟨hraised, rfl⟩
      exact ⟨hraised, rfl⟩
  · obtain ⟨hsame, rfl⟩ := hframes hleft
    refine ⟨hsame, ?_⟩
    simp only [State.withHeld, State.framed, hbscopes, hbframes]

theorem start?_function (args : List Ref) (rounds : Nat) (hroom : s.room ≠ 0)
    (hp : s.payload callee = .function function) (htrees : host.evaluator = some trees)
    (hnames : (function.params ++ function.rest.toList).Nodup) :
    ∃ start scope, host.start? s callee args = some start ∧
      start.code rounds = trees.execute (machine host rounds).toDispatcher function.body ∧
      ¬ s.heap.Contains scope ∧ start.state.kind scope = .map ∧
      start.state.scopes = scope :: function.closure :: s.scopes ∧
      start.state.frames = callee :: s.frames ∧ s.Like start.state ∧
      s.BindsArguments function args scope start.state := by
  obtain ⟨scope, b, hbound, hopen, hbinds⟩ :=
    (Functions.ends_bind_values (s := s.calling callee args) function args hnames).exists_run
  have hrest := hopen.grown.rest
  refine ⟨_, scope, start?_of_bind hp htrees hroom hbound, rfl, hopen.fresh, hopen.map.kind, ?_, ?_,
    ⟨hopen.like.memory, hopen.like.nothing, hopen.like.kept, hopen.like.size⟩,
    ⟨hbinds.params, hbinds.rest, hbinds.others⟩⟩
  · show scope :: function.closure :: b.scopes = _
    rw [hrest]
    rfl
  · show callee :: b.frames = _
    rw [hrest]
    rfl

/-- The body of a function starts with its parameters bound to the arguments, whatever their number, and
with every other name bound as where the function was made, or else as in the caller. Once it has come to an
end, the scopes are those of the caller, and no name that was not bound there is bound by having been
assigned in the body. -/
theorem parameters_bound (args : List Ref) (rounds : Nat) (hwhole : s.Whole) (hne : s.scopes ≠ [])
    (hroom : s.room ≠ 0) (hp : s.payload callee = .function function) (htrees : host.evaluator = some trees)
    (hbalanced : trees.Balanced (machine host rounds).toDispatcher)
    (hnames : (function.params ++ function.rest.toList).Nodup) :
    ∃ start scope, host.start? s callee args = some start ∧
      start.code rounds = trees.execute (machine host rounds).toDispatcher function.body ∧
      ¬ s.heap.Contains scope ∧ start.state.kind scope = .map ∧
      start.state.scopes = scope :: function.closure :: s.scopes ∧
      start.state.frames = callee :: s.frames ∧
      (∀ o, s.heap.Contains o → start.state.payload o = s.payload o) ∧
      (∀ (i : Nat) name, function.params[i]? = some name →
        start.state.valueOf? name = some (args[i]?.getD s.nothing)) ∧
      (∀ name, function.rest = some name → ∃ list, ¬ s.heap.Contains list ∧
        start.state.payload list = .list (args.drop function.params.length).toArray ∧
        start.state.valueOf? name = some list) ∧
      (∀ name, name ∉ function.params ++ function.rest.toList →
        start.state.valueOf? name = (s.named? function.closure name).or (s.valueOf? name)) ∧
      (((machine host (rounds + 1)).call callee args).Halts s ↔
        (start.code rounds).Halts start.state) ∧
      ∀ e t, ((machine host (rounds + 1)).call callee args).ending? s = some (e, t) →
        t.scopes = s.scopes ∧ ∃ before u, (start.code rounds).ending? start.state = some (before, u) ∧
          (u.frames = start.state.frames →
            e = before ∧ t = { u with scopes := s.scopes, frames := s.frames, held := s.held }) ∧
          ∀ name, s.valueOf? name = none → u.Whole → start.state.Assigns s.scopes name u →
            t.valueOf? name = none := by
  obtain ⟨start, scope, hstart, hcode, hfresh, hmap, hscopes, hframes, hlike, hbinds⟩ :=
    start?_function args rounds hroom hp htrees hnames
  have hclosure : s.heap.Contains function.closure :=
    hwhole.closed.made_of_mem (p := callee) (by simp [hp, Payload.references])
  have hvalue := hwhole.valueOf?_called hlike hclosure hscopes
  have hhalts : ((machine host (rounds + 1)).call callee args).Halts s ↔
      ∀ start ∈ host.start? s callee args, (start.code rounds).Halts start.state :=
    halts_call (by simp [State.kind_of_payload hp, Payload.kind])
  refine ⟨start, scope, hstart, hcode, hfresh, hmap, hscopes, hframes, hlike.kept, ?_, ?_, ?_, ?_, ?_⟩
  · intro i name hname
    rw [hvalue, hbinds.params i name hname, Option.some_or]
  · intro name hname
    obtain ⟨list, hnew, hlist, hnamed⟩ := hbinds.rest name hname
    exact ⟨list, hnew, hlist, by rw [hvalue, hnamed, Option.some_or]⟩
  · intro name hname
    rw [hvalue, hbinds.others name hname, Option.none_or]
  · rw [hhalts, hstart]
    simp
  · intro e t hend
    have hcall : ((machine host (rounds + 1)).call callee args).Halts s :=
      Ends.halts (ending?_eq_some_iff.mp hend)
    have hbody : (start.code rounds).Halts start.state := hhalts.mp hcall start hstart
    obtain ⟨before, u, hrun⟩ := hbody.exists_ending
    have hscoped : u.scopes = start.state.scopes :=
      hbalanced function.body start.state before u (by simp [hscopes]) (hcode ▸ hrun)
    obtain ⟨after, v, hend', htscopes, hafter, hsame⟩ :=
      ending?_call_function hp htrees hroom hne hstart hrun hscoped
    obtain ⟨rfl, rfl⟩ := Prod.mk.inj (Option.some.inj (hend.symm.trans hend'))
    refine ⟨htscopes, before, u, hrun, hsame, fun name hunbound hwhole' hassigns => ?_⟩
    have hstartUnbound : ∀ o ∈ s.scopes, start.state.named? o name = none := by
      intro o ho
      rw [hlike.named?_eq (hwhole.made_scope ho) (hwhole.closed.madeCells o)]
      exact List.findSome?_eq_none_iff.mp hunbound o ho
    refine hwhole'.unbound_after hafter (fun o ho => ?_) fun o ho => ?_
    · simp [hscoped, hscopes, htscopes ▸ ho]
    · exact hassigns.unbound hstartUnbound o (htscopes ▸ ho)

/-- A function with one parameter and a rest is called with two arguments, and assigns a name. -/
theorem parameters_bound_rest :
    let value : Expression := .mk {} (.reference "a")
    let body : Statement := .mk {} (.expression (some (.mk {} (.assign "x" (some value)))))
    let s := { Globals.bare {} .discard {} with
      heap := ⟨#[.singlet "None", .map [], .map [], .int 7, .int 8, .function {
        name := none, params := ["a"], rest := some "r", body := body
        closure := ⟨1⟩, attributes := ⟨2⟩, annotations := ⟨2⟩ }]⟩ }
    (∃ start ∈ Host.start? .steady s ⟨5⟩ [⟨3⟩, ⟨4⟩], start.state.valueOf? "a" = some ⟨3⟩ ∧
      ∃ list, start.state.valueOf? "r" = some list ∧ start.state.payload list = .list #[⟨4⟩]) ∧
    ∀ rounds, ∃ e t, ((machine .steady (rounds + 1)).call ⟨5⟩ [⟨3⟩, ⟨4⟩]).ending? s = some (e, t) ∧
      t.scopes = s.scopes ∧ t.valueOf? "x" = none := by
  intro value body s
  have hwhole : s.Whole := by decide +kernel
  have hbound (rounds : Nat) := parameters_bound [⟨3⟩, ⟨4⟩] rounds hwhole (by decide) (by decide)
    (show s.payload ⟨5⟩ = .function _ from rfl) (show Host.steady.evaluator = some _ from rfl)
    (Host.steady.balanced rounds rfl) (by decide)
  refine ⟨?_, fun rounds => ?_⟩
  · obtain ⟨start, scope, hstart, -, -, -, -, -, -, hparams, hrest, -⟩ := hbound 0
    obtain ⟨list, -, hlist, hnamed⟩ := hrest "r" rfl
    exact ⟨start, hstart, hparams 0 "a" rfl, list, hnamed, hlist⟩
  have hwholes : ∀ start ∈ Host.start? .steady s ⟨5⟩ [⟨3⟩, ⟨4⟩], start.state.Whole ∧
      start.state.kind (start.state.assignmentScope "x") = .map ∧
      ∀ ending ∈ (setVariable "x" ⟨3⟩).ending? start.state, ending.2.Whole := by
    decide +kernel
  obtain ⟨start, scope, hstart, hcode, hfresh, -, hscopes, -, -, hparams, -, -, hhalts, hends⟩ :=
    hbound rounds
  obtain ⟨hstartWhole, hmap, hendWhole⟩ := hwholes start hstart
  have hvalue : start.state.valueOf? "a" = some ⟨3⟩ := hparams 0 "a" rfl
  -- The body is no more than an assignment.
  obtain ⟨_, u, hset, -⟩ := (Map.ends_setNamed hmap "x" ⟨3⟩).exists_run
  have hset : (setVariable "x" ⟨3⟩).run start.state = .ok () u := hset
  have hending : (start.code rounds).ending? start.state = some (.value, u) := by
    rw [hcode, ending?_eq_some_iff]
    generalize (machine .steady rounds).toDispatcher = run
    simp only [TreeWalk.evaluator, body, value, TreeWalk.execute, TreeWalk.executeForm,
      TreeWalk.evaluateOption, TreeWalk.evaluate, TreeWalk.evaluateForm, getVariable, ends_bind,
      ends_discard, ends_get, ends_pure, ends_orNothing, hvalue, Option.getD_some, ends_of_run hset,
      and_self]
  -- What the call runs is not to be evaluated.
  generalize ((machine .steady (rounds + 1)).call ⟨5⟩ [⟨3⟩, ⟨4⟩]) = call at hhalts hends ⊢
  obtain ⟨e, t, hend⟩ := (hhalts.mpr (Ends.halts (ending?_eq_some_iff.mp hending))).exists_ending
  obtain ⟨htscopes, before, v, hbefore, -, hunbound⟩ := hends e t hend
  obtain ⟨-, rfl⟩ := Prod.mk.inj (Option.some.inj (hending.symm.trans hbefore))
  refine ⟨e, t, hend, htscopes, hunbound "x" (by decide) (hendWhole _ (ending?_ok hset)) ?_⟩
  have houter : scope ∉ s.scopes := fun hscope => hfresh (hwhole.made_scope hscope)
  have hscopes : start.state.scopes = scope :: ([⟨1⟩] ++ s.scopes) := hscopes
  exact .assign .start hstartWhole hscopes houter hset

end ObjectModel
