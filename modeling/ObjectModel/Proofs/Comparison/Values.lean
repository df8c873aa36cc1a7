import Mathlib.Data.Fintype.EquivFin
import ObjectModel.Builtin.Globals
import ObjectModel.Proofs.Comparison.Contents

/-!
# The order of values

Ints, strings and lists of these hold values. Comparing them never raises and changes nothing, and gives
the order of the values: that of the numbers, of the bytes, and of lengths and then items
(`compare_values`). On values of one shape the order is total, and on all values nothing but equal ones
are equal by it.
-/

namespace ObjectModel

open ObjectModel.Action Behavior Relation

/-- What an int, a string or a list holds, with all that lies in it. -/
inductive Value where
  | int (n : Int64)
  | text (text : String)
  | list (items : List Value)

/-- What sort of value an object holds. All items of a list are of one sort. -/
inductive Shape where
  | int
  | text
  | list (item : Shape)

-- ---------------------------------------------------------------------------
-- Values and their order
-- ---------------------------------------------------------------------------

namespace Value

mutual

/-- Ints in the order of numbers, texts in that of their bytes, and lists by length first, then by the
first items that differ. Where the two are of different kinds, the left one comes last. -/
def order : Value → Value → Ordering
  | .int n, .int m => compare n.toInt m.toInt
  | .text a, .text b => compare (Bytes.ofText a) (Bytes.ofText b)
  | .list xs, .list ys => (compare xs.length ys.length).then (orderAll xs ys)
  | _, _ => .gt

def orderAll : List Value → List Value → Ordering
  | x :: xs, y :: ys => (order x y).then (orderAll xs ys)
  | _, _ => .eq

end

def HasShape : Shape → Value → Prop
  | .int, .int _ => True
  | .text, .text _ => True
  | .list item, .list xs => ∀ x ∈ xs, HasShape item x
  | _, _ => False

/-- What holds of a list if it holds of its items holds of all values. -/
theorem induct {P : Value → Prop} (int : ∀ n, P (.int n)) (text : ∀ text, P (.text text))
    (list : ∀ items, (∀ x ∈ items, P x) → P (.list items)) : ∀ x, P x
  | .int n => int n
  | .text t => text t
  | .list items => list items fun x _ => induct int text list x

variable {x y z : Value} {xs ys zs : List Value} {shape : Shape}

theorem HasShape.eq_int (h : x.HasShape .int) : ∃ n, x = .int n := by
  cases x <;> simp [HasShape] at h ⊢

theorem HasShape.eq_text (h : x.HasShape .text) : ∃ text, x = .text text := by
  cases x <;> simp [HasShape] at h ⊢

theorem HasShape.eq_list {item : Shape} (h : x.HasShape (.list item)) :
    ∃ xs, x = .list xs ∧ ∀ y ∈ xs, y.HasShape item := by
  cases x <;> simp [HasShape] at h ⊢
  exact h

theorem orderAll_eq_iff (hlength : xs.length = ys.length)
    (hitems : ∀ x ∈ xs, ∀ y, order x y = .eq ↔ x = y) : orderAll xs ys = .eq ↔ xs = ys := by
  induction xs generalizing ys with
  | nil =>
    obtain rfl := List.length_eq_zero_iff.mp hlength.symm
    simp [orderAll]
  | cons x xs ih =>
    cases ys with
    | nil => simp at hlength
    | cons y ys =>
      have hrest := ih (Nat.succ.inj hlength) fun x hx => hitems x (List.mem_cons_of_mem _ hx)
      rw [orderAll, Ordering.then_eq_eq, hitems x List.mem_cons_self, hrest, List.cons.injEq]

theorem order_eq_iff : order x y = .eq ↔ x = y := by
  induction x using induct generalizing y with
  | int n =>
    cases y with
    | int m => simp [order, Int64.toInt_inj]
    | _ => simp [order]
  | text a =>
    cases y with
    | text b => simp [order, Bytes.ofText_inj]
    | _ => simp [order]
  | list xs ih =>
    cases y with
    | list ys =>
      rw [order, Ordering.then_eq_eq, Nat.compare_eq_eq, list.injEq]
      constructor
      · rintro ⟨hlength, hitems⟩
        exact (orderAll_eq_iff hlength fun x hx _ => ih x hx).mp hitems
      · rintro rfl
        exact ⟨rfl, (orderAll_eq_iff rfl fun x hx _ => ih x hx).mpr rfl⟩
    | _ => simp [order]

theorem orderAll_swap (hitems : ∀ x ∈ xs, ∀ y ∈ ys, order y x = (order x y).swap) :
    orderAll ys xs = (orderAll xs ys).swap := by
  induction xs generalizing ys with
  | nil => cases ys <;> rfl
  | cons x xs ih =>
    cases ys with
    | nil => rfl
    | cons y ys =>
      have hfirst := hitems x List.mem_cons_self y List.mem_cons_self
      have hrest := ih fun x hx y hy =>
        hitems x (List.mem_cons_of_mem _ hx) y (List.mem_cons_of_mem _ hy)
      rw [orderAll, orderAll, Ordering.swap_then, hfirst, hrest]

theorem order_swap (hx : x.HasShape shape) (hy : y.HasShape shape) : order y x = (order x y).swap := by
  induction shape generalizing x y with
  | int =>
    obtain ⟨n, rfl⟩ := hx.eq_int
    obtain ⟨m, rfl⟩ := hy.eq_int
    rw [order, order]
    exact Std.OrientedCmp.eq_swap
  | text =>
    obtain ⟨a, rfl⟩ := hx.eq_text
    obtain ⟨b, rfl⟩ := hy.eq_text
    rw [order, order]
    exact Std.OrientedCmp.eq_swap
  | list item ih =>
    obtain ⟨xs, rfl, hxs⟩ := hx.eq_list
    obtain ⟨ys, rfl, hys⟩ := hy.eq_list
    have hlength : compare ys.length xs.length = (compare xs.length ys.length).swap :=
      Std.OrientedCmp.eq_swap
    have hitems := orderAll_swap fun x hx y hy => ih (hxs x hx) (hys y hy)
    rw [order, order, Ordering.swap_then, hlength, hitems]

theorem isLE_then {rest : Ordering} : ((order x y).then rest).isLE ↔
    order x y = .lt ∨ x = y ∧ rest.isLE := by
  rw [← order_eq_iff]
  cases order x y <;> simp [Ordering.then]

theorem orderAll_trans (hlength : xs.length = ys.length)
    (hswap : ∀ x ∈ xs, ∀ y ∈ ys, order y x = (order x y).swap)
    (htrans : ∀ x ∈ xs, ∀ y ∈ ys, ∀ z ∈ zs, (order x y).isLE → (order y z).isLE → (order x z).isLE)
    (hxy : (orderAll xs ys).isLE) (hyz : (orderAll ys zs).isLE) : (orderAll xs zs).isLE := by
  induction xs generalizing ys zs with
  | nil => simp [orderAll]
  | cons x xs ih =>
    cases ys with
    | nil => simp at hlength
    | cons y ys =>
      cases zs with
      | nil => simp [orderAll]
      | cons z zs =>
        rw [orderAll, isLE_then] at hxy hyz ⊢
        rcases hxy with hxy | ⟨rfl, hxy⟩
        · refine .inl ?_
          rcases hyz with hyz | ⟨rfl, -⟩
          · have hle := htrans x List.mem_cons_self y List.mem_cons_self z List.mem_cons_self
              (by simp [hxy]) (by simp [hyz])
            have hne : order x z ≠ .eq := by
              intro heq
              obtain rfl := order_eq_iff.mp heq
              have hback := hswap x List.mem_cons_self y List.mem_cons_self
              simp [hxy, hyz] at hback
            cases hxz : order x z <;> simp [hxz] at hle hne ⊢
          · exact hxy
        · rcases hyz with hyz | ⟨rfl, hyz⟩
          · exact .inl hyz
          · refine .inr ⟨rfl, ih (Nat.succ.inj hlength) ?_ ?_ hxy hyz⟩
            · exact fun x hx y hy => hswap x (List.mem_cons_of_mem _ hx) y (List.mem_cons_of_mem _ hy)
            · exact fun x hx y hy z hz => htrans x (List.mem_cons_of_mem _ hx) y
                (List.mem_cons_of_mem _ hy) z (List.mem_cons_of_mem _ hz)

theorem order_trans (hx : x.HasShape shape) (hy : y.HasShape shape) (hz : z.HasShape shape)
    (hxy : (order x y).isLE) (hyz : (order y z).isLE) : (order x z).isLE := by
  induction shape generalizing x y z with
  | int =>
    obtain ⟨n, rfl⟩ := hx.eq_int
    obtain ⟨m, rfl⟩ := hy.eq_int
    obtain ⟨k, rfl⟩ := hz.eq_int
    rw [order] at hxy hyz ⊢
    exact Std.TransCmp.isLE_trans hxy hyz
  | text =>
    obtain ⟨a, rfl⟩ := hx.eq_text
    obtain ⟨b, rfl⟩ := hy.eq_text
    obtain ⟨c, rfl⟩ := hz.eq_text
    rw [order] at hxy hyz ⊢
    exact Std.TransCmp.isLE_trans hxy hyz
  | list item ih =>
    obtain ⟨xs, rfl, hxs⟩ := hx.eq_list
    obtain ⟨ys, rfl, hys⟩ := hy.eq_list
    obtain ⟨zs, rfl, hzs⟩ := hz.eq_list
    have hthen (m n : Nat) (rest : Ordering) :
        ((compare m n).then rest).isLE ↔ m < n ∨ m = n ∧ rest.isLE := by
      rcases Nat.lt_trichotomy m n with h | rfl | h
      · simp [Nat.compare_eq_lt.mpr h, h]
      · simp
      · simp [Nat.compare_eq_gt.mpr h, Nat.lt_asymm h, Nat.ne_of_gt h]
    rw [order, hthen] at hxy hyz ⊢
    rcases hxy with hxy | ⟨hlength, hxy⟩
    · exact .inl (by omega)
    · rcases hyz with hyz | ⟨hlength', hyz⟩
      · exact .inl (by omega)
      · refine .inr ⟨hlength.trans hlength', orderAll_trans hlength ?_ ?_ hxy hyz⟩
        · exact fun x hx y hy => order_swap (hxs x hx) (hys y hy)
        · exact fun x hx y hy z hz => ih (hxs x hx) (hys y hy) (hzs z hz)

end Value

-- ---------------------------------------------------------------------------
-- Objects that hold values
-- ---------------------------------------------------------------------------

namespace State

/-- The object holds the value. -/
inductive Means (s : State) : Ref → Value → Prop
  | int {o : Ref} {n : Int64} (h : s.payload o = .int n) : Means s o (.int n)
  | text {o : Ref} {text : String} (h : s.payload o = .string text) : Means s o (.text text)
  | list {o : Ref} {items : Array Ref} {values : List Value} (h : s.payload o = .list items)
      (hsize : items.size = values.length)
      (hitems : ∀ pair ∈ items.toList.zip values, Means s pair.1 pair.2) : Means s o (.list values)

def SameValue (s : State) (left right : Ref) : Prop := ∃ x, s.Means left x ∧ s.Means right x

def Shaped (s : State) : Shape → Ref → Prop
  | .int, o => s.kind o = .int
  | .text, o => s.kind o = .string
  | .list item, o => ∃ items, s.payload o = .list items ∧ ∀ p ∈ items, s.Shaped item p

def Built (s : State) (o : Ref) : Prop :=
  ∀ p, s.Within p o → s.kind p = .int ∨ s.kind p = .string ∨ s.kind p = .list

/-- Neither the object nor a list in it lies in itself. -/
def Acyclic (s : State) (o : Ref) : Prop := ∀ p, s.Within p o → ¬ TransGen s.Holds p p

variable {s t : State} {o left right : Ref} {x y : Value} {xs ys : List Value}

theorem means_unique_of_items {items : List Ref} (hxs : items.length = xs.length)
    (hys : items.length = ys.length)
    (hunique : ∀ pair ∈ items.zip xs, ∀ y, s.Means pair.1 y → pair.2 = y)
    (hmeans : ∀ pair ∈ items.zip ys, s.Means pair.1 pair.2) : xs = ys := by
  induction items generalizing xs ys with
  | nil =>
    obtain rfl := List.length_eq_zero_iff.mp hxs.symm
    obtain rfl := List.length_eq_zero_iff.mp hys.symm
    rfl
  | cons item items ih =>
    obtain ⟨x, xs, rfl⟩ := List.exists_cons_of_length_eq_add_one hxs.symm
    obtain ⟨y, ys, rfl⟩ := List.exists_cons_of_length_eq_add_one hys.symm
    rw [List.zip_cons_cons, List.forall_mem_cons] at hunique hmeans
    obtain rfl : x = y := hunique.1 y hmeans.1
    rw [ih (Nat.succ.inj hxs) (Nat.succ.inj hys) hunique.2 hmeans.2]

theorem Means.unique (hx : s.Means o x) (hy : s.Means o y) : x = y := by
  induction hx generalizing y with
  | int h =>
    cases hy <;> simp_all
  | text h =>
    cases hy <;> simp_all
  | list h hsize _ ih =>
    cases hy with
    | list h' hsize' hitems =>
      obtain rfl := Payload.list.inj (h.symm.trans h')
      rw [means_unique_of_items (by simpa using hsize) (by simpa using hsize')
        (fun pair hpair _ => ih pair hpair) hitems]
    | _ => simp_all

theorem sameValue_iff (hleft : s.Means left x) (hright : s.Means right y) :
    s.SameValue left right ↔ x = y := by
  constructor
  · rintro ⟨z, hz, hz'⟩
    rw [hleft.unique hz, hright.unique hz']
  · rintro rfl
    exact ⟨x, hleft, hright⟩

theorem Means.contains (h : s.Means o x) : s.heap.Contains o := by
  refine contains_of_kind_ne ?_
  cases h <;> rename_i h <;> simp [kind_of_payload h, Payload.kind]

theorem Means.keeps (h : s.Means o x) (hkeeps : s.Keeps t) : t.Means o x := by
  induction h with
  | int h => exact .int ((hkeeps.kept _ (Means.int h).contains).trans h)
  | text h => exact .text ((hkeeps.kept _ (Means.text h).contains).trans h)
  | list h hsize hitems ih =>
    exact .list ((hkeeps.kept _ (Means.list h hsize hitems).contains).trans h) hsize ih

theorem exists_values {items : List Ref} {P : Value → Prop}
    (h : ∀ o ∈ items, ∃ x, s.Means o x ∧ P x) : ∃ values, items.length = values.length ∧
      (∀ pair ∈ items.zip values, s.Means pair.1 pair.2) ∧ ∀ x ∈ values, P x := by
  induction items with
  | nil => exact ⟨[], rfl, by simp, by simp⟩
  | cons item items ih =>
    obtain ⟨x, hmeans, hx⟩ := h item List.mem_cons_self
    obtain ⟨values, hlength, hitems, hvalues⟩ := ih fun o ho => h o (List.mem_cons_of_mem _ ho)
    refine ⟨x :: values, by simp [hlength], ?_, List.forall_mem_cons.mpr ⟨hx, hvalues⟩⟩
    rw [List.zip_cons_cons, List.forall_mem_cons]
    exact ⟨hmeans, hitems⟩

theorem Shaped.exists_value {shape : Shape} (h : s.Shaped shape o) :
    ∃ x, s.Means o x ∧ x.HasShape shape := by
  induction shape generalizing o with
  | int =>
    unfold Shaped kind at h
    cases ho : s.payload o <;> simp [ho, Payload.kind] at h
    exact ⟨_, .int ho, trivial⟩
  | text =>
    obtain ⟨text, ho⟩ := payload_of_string h
    exact ⟨_, .text ho, trivial⟩
  | list item ih =>
    obtain ⟨items, ho, hitems⟩ := h
    obtain ⟨values, hlength, hmeans, hvalues⟩ :=
      exists_values fun o ho => ih (hitems o (Array.mem_toList_iff.mp ho))
    exact ⟨_, .list ho (by simpa using hlength) hmeans, hvalues⟩

-- ---------------------------------------------------------------------------
-- Lists that do not lie in themselves
-- ---------------------------------------------------------------------------

theorem acc_of_not_contains (h : ¬ s.heap.Contains o) : Acc s.Holds o := by
  refine .intro _ ?_
  rintro _ ⟨items, hitems, -⟩
  exact absurd (contains_of_list hitems) h

/-- There are finitely many lists, so that they do not lie in each other without end. -/
theorem Acyclic.acc (h : s.Acyclic o) : Acc s.Holds o := by
  let inner := {p : Ref // s.Within p o ∧ s.heap.Contains p}
  have hfinite : Finite inner := by
    refine Finite.of_injective (fun p : inner => (⟨p.1.index, p.2.2⟩ : Fin s.heap.size)) ?_
    rintro ⟨⟨p⟩, hp⟩ ⟨⟨q⟩, hq⟩ hsame
    obtain rfl : p = q := congrArg Fin.val hsame
    rfl
  let holds (p q : inner) : Prop := TransGen s.Holds p.1 q.1
  have : IsTrans inner holds := ⟨fun _ _ _ h h' => h.trans h'⟩
  have : Std.Irrefl holds := ⟨fun p => h p.1 p.2.1⟩
  have hends := Finite.wellFounded_of_trans_of_irrefl holds
  have hinner (p : inner) : Acc s.Holds p.1 := by
    induction p using hends.induction with
    | _ p ih =>
      refine .intro _ fun q hq => ?_
      by_cases hmade : s.heap.Contains q
      · exact ih ⟨q, .head hq p.2.1, hmade⟩ (.single hq)
      · exact acc_of_not_contains hmade
  by_cases hmade : s.heap.Contains o
  · exact hinner ⟨o, .refl, hmade⟩
  · exact acc_of_not_contains hmade

theorem Built.exists_value (h : s.Built o) (hacyclic : s.Acyclic o) : ∃ x, s.Means o x := by
  induction hacyclic.acc with
  | intro o _ ih =>
    rcases h o .refl with hint | htext | hlist
    · unfold kind at hint
      cases ho : s.payload o <;> simp [ho, Payload.kind] at hint
      exact ⟨_, .int ho⟩
    · obtain ⟨text, ho⟩ := payload_of_string htext
      exact ⟨_, .text ho⟩
    · obtain ⟨items, ho⟩ := payload_of_list hlist
      have hitems : ∀ p ∈ items.toList, ∃ x, s.Means p x ∧ True := by
        intro p hp
        have hholds : s.Holds p o := ⟨items, ho, Array.mem_toList_iff.mp hp⟩
        obtain ⟨x, hx⟩ := ih p hholds (fun q hq => h q (hq.tail hholds))
          fun q hq => hacyclic q (hq.tail hholds)
        exact ⟨x, hx, trivial⟩
      obtain ⟨values, hlength, hmeans, -⟩ := exists_values hitems
      exact ⟨_, .list ho (by simpa using hlength) hmeans⟩

theorem exists_mem_zip {items : List Ref} (hlength : items.length = xs.length) (ho : o ∈ items) :
    ∃ x, (o, x) ∈ items.zip xs := by
  obtain ⟨index, hindex, rfl⟩ := List.mem_iff_getElem.mp ho
  refine ⟨xs[index], List.mem_iff_getElem.mpr ⟨index, ?_, List.getElem_zip⟩⟩
  rw [List.length_zip]
  omega

theorem Means.item (h : s.Means o x) (hp : s.Holds p o) : ∃ y, s.Means p y := by
  obtain ⟨items, hitems, hmem⟩ := hp
  cases h with
  | list h hsize hmeans =>
    obtain rfl := Payload.list.inj (hitems.symm.trans h)
    obtain ⟨y, hy⟩ := exists_mem_zip (by simpa using hsize) (Array.mem_toList_iff.mpr hmem)
    exact ⟨y, hmeans _ hy⟩
  | _ => simp_all

theorem Means.shaped {shape : Shape} (h : s.Means o x) (hx : x.HasShape shape) : s.Shaped shape o := by
  induction h generalizing shape with
  | int h =>
    cases shape <;> simp [Value.HasShape] at hx
    exact kind_of_payload h
  | text h =>
    cases shape <;> simp [Value.HasShape] at hx
    exact kind_of_payload h
  | list h hsize _ ih =>
    cases shape <;> simp [Value.HasShape] at hx
    refine ⟨_, h, fun p hp => ?_⟩
    obtain ⟨y, hy⟩ := exists_mem_zip (by simpa using hsize) (Array.mem_toList_iff.mpr hp)
    exact ih _ hy (hx y (List.of_mem_zip hy).2)

theorem Means.within (h : s.Means o x) (hp : s.Within p o) : ∃ y, s.Means p y := by
  induction hp using ReflTransGen.head_induction_on with
  | refl => exact ⟨x, h⟩
  | head hstep _ ih =>
    obtain ⟨y, hy⟩ := ih
    exact hy.item hstep

theorem Means.built (h : s.Means o x) : s.Built o := by
  intro p hp
  obtain ⟨y, hy⟩ := h.within hp
  cases hy <;> rename_i h <;> simp [kind_of_payload h, Payload.kind]

theorem Means.not_holds_self (h : s.Means o x) : ¬ TransGen s.Holds o o := by
  induction h with
  | int h =>
    rw [TransGen.tail'_iff]
    rintro ⟨_, -, items, hitems, -⟩
    simp [h] at hitems
  | text h =>
    rw [TransGen.tail'_iff]
    rintro ⟨_, -, items, hitems, -⟩
    simp [h] at hitems
  | list h hsize _ ih =>
    -- Where the list lies in itself, so does the item by which it does.
    intro hself
    obtain ⟨p, hpath, hp⟩ := TransGen.tail'_iff.mp hself
    obtain ⟨items, hitems, hmem⟩ := id hp
    obtain rfl := Payload.list.inj (h.symm.trans hitems)
    obtain ⟨y, hy⟩ := exists_mem_zip (by simpa using hsize) (Array.mem_toList_iff.mpr hmem)
    exact ih _ hy (.head' hp hpath)

theorem Means.acyclic (h : s.Means o x) : s.Acyclic o := by
  intro p hp
  obtain ⟨y, hy⟩ := h.within hp
  exact hy.not_holds_self

end State

-- ---------------------------------------------------------------------------
-- Comparisons of values
-- ---------------------------------------------------------------------------

variable {s s₀ : State} {left right : Ref} {x y : Value}

theorem Integer.order_eq_compare (a b : Int64) : order a b = compare a.toInt b.toInt := by
  simp only [order, Int64.lt_iff_toInt_lt]
  rcases Int.lt_trichotomy a.toInt b.toInt with h | h | h
  · rw [if_pos h, Int.compare_eq_lt.mpr h]
  · rw [if_neg (by omega), if_neg (by omega), Int.compare_eq_eq.mpr h]
  · rw [if_neg (by omega), if_pos h, Int.compare_eq_gt.mpr h]

theorem Bytes.order_eq_compare (a b : Bytes) : order a b = compare a b := by
  induction a generalizing b with
  | nil => cases b <;> rfl
  | cons x xs ih =>
    cases b with
    | nil => rfl
    | cons y ys =>
      rw [order, ih, List.compare_cons_cons]
      show _ = (compareOfLessAndEq x y).then _
      unfold compareOfLessAndEq
      split
      · rfl
      · rename_i hless
        split
        · rename_i hmore
          rw [if_neg (UInt8.ne_of_lt hmore).symm]
          rfl
        · rename_i hmore
          rw [if_pos (UInt8.le_antisymm (UInt8.not_lt.mp hmore) (UInt8.not_lt.mp hless))]
          rfl

theorem State.Means.settled (hleft : s.Means left x) (hright : s.Means right y)
    (hlists : ¬ (s.kind left = .list ∧ s.kind right = .list)) : s.Settled left right ∧
      Integer.sign (s.leafOrder left right) = Integer.ofOrdering (x.order y) := by
  unfold Settled Leaf kind leafOrder
  unfold kind at hlists
  cases hleft with
  | int hleft =>
    rw [hleft]
    cases hright with
    | int hright =>
      rw [hright]
      simp [Payload.kind, Integer.sign_ofOrdering, Value.order, Integer.order_eq_compare]
    | text hright => simp [hright, Payload.kind, Value.order]; decide
    | list hright => simp [hright, Payload.kind, Value.order]; decide
  | text hleft =>
    rw [hleft]
    cases hright with
    | text hright =>
      rw [hright]
      simp [Payload.kind, Integer.sign_ofOrdering, Value.order, Bytes.order_eq_compare]
    | int hright => simp [hright, Payload.kind, Value.order]; decide
    | list hright => simp [hright, Payload.kind, Value.order]; decide
  | list hleft =>
    rw [hleft] at hlists ⊢
    cases hright with
    | list hright => simp [hright, Payload.kind] at hlists
    | int hright => simp [hright, Payload.kind, Value.order]; decide
    | text hright => simp [hright, Payload.kind, Value.order]; decide

theorem ends_compareItems_values (run : Dispatcher) {lefts rights : List Ref} {xs ys : List Value}
    (hxs : lefts.length = xs.length) (hys : rights.length = ys.length)
    (hmeans : ∀ pair ∈ rights.zip ys, s₀.Means pair.1 pair.2)
    (hcompare : ∀ pair ∈ lefts.zip xs, ∀ right y, s₀.Means right y → ∀ s, s₀.Keeps s →
      (run.compare pair.1 right).Ends s
        (fun n t => n = Integer.ofOrdering (pair.2.order y) ∧ s.Grown t s.shown) fun _ => False)
    (hkeeps : s₀.Keeps s) : (Lists.compareItems run lefts rights).Ends s
      (fun n t => n = Integer.ofOrdering (Value.orderAll xs ys) ∧ s.Grown t s.shown) fun _ => False := by
  induction lefts generalizing xs rights ys s with
  | nil =>
    obtain rfl := List.length_eq_zero_iff.mp hxs.symm
    exact ⟨by simp [Value.orderAll, Integer.ofOrdering], .refl s⟩
  | cons left lefts ih =>
    obtain ⟨x, xs, rfl⟩ := List.exists_cons_of_length_eq_add_one hxs.symm
    cases rights with
    | nil =>
      obtain rfl := List.length_eq_zero_iff.mp hys.symm
      exact ⟨by simp [Value.orderAll, Integer.ofOrdering], .refl s⟩
    | cons right rights =>
      obtain ⟨y, ys, rfl⟩ := List.exists_cons_of_length_eq_add_one hys.symm
      rw [List.zip_cons_cons, List.forall_mem_cons] at hmeans hcompare
      rw [Lists.compareItems, ends_bind]
      refine (hcompare.1 right y hmeans.1 s hkeeps).imp_value ?_
      rintro n t ⟨hn, hgrown⟩
      rw [Value.orderAll]
      cases horder : x.order y with
      | eq =>
        have hrest := ih (Nat.succ.inj hxs) (Nat.succ.inj hys) hmeans.2 hcompare.2
          (hkeeps.trans hgrown.keeps)
        have hzero : n = 0 := by simp [hn, horder, Integer.ofOrdering]
        simpa [hzero] using hrest.imp_value fun _ _ h => ⟨h.1, hgrown.thenGrown h.2⟩
      | lt =>
        have hless : n = -1 := by simp [hn, horder, Integer.ofOrdering]
        simpa [hless, Integer.ofOrdering] using hgrown
      | gt =>
        have hmore : n = 1 := by simp [hn, horder, Integer.ofOrdering]
        simpa [hmore, Integer.ofOrdering] using hgrown

theorem ends_compare_single_value (host : Host) (rounds : Nat) (hleft : s₀.Means left x)
    (hright : s₀.Means right y) (hlists : ¬ (s₀.kind left = .list ∧ s₀.kind right = .list))
    (hkeeps : s₀.Keeps s) : ((machine host (rounds + 1)).compare left right).Ends s
      (fun n t => n = Integer.ofOrdering (x.order y) ∧ s.Grown t s.shown) fun _ => False := by
  have hkinds : ¬ (s.kind left = .list ∧ s.kind right = .list) := by
    rwa [State.kind, State.kind, hkeeps.kept left hleft.contains, hkeeps.kept right hright.contains]
  obtain ⟨hsettled, horder⟩ := (hleft.keeps hkeeps).settled (hright.keeps hkeeps) hkinds
  rw [← horder]
  exact ends_compare_settled host rounds hsettled

/-- As many rounds as lists lie in each other on the left are enough to compare values. -/
theorem ends_compare_values (host : Host) (hleft : s₀.Means left x) :
    ∃ enough, ∀ rounds ≥ enough, ∀ right y, s₀.Means right y → ∀ s, s₀.Keeps s →
      ((machine host rounds).compare left right).Ends s
        (fun n t => n = Integer.ofOrdering (x.order y) ∧ s.Grown t s.shown) fun _ => False := by
  induction hleft with
  | int h =>
    refine ⟨1, fun rounds hrounds right y hright s hkeeps => ?_⟩
    obtain ⟨rounds, rfl⟩ := Nat.exists_eq_add_of_le' hrounds
    refine ends_compare_single_value host rounds (.int h) hright ?_ hkeeps
    simp [State.kind_of_payload h, Payload.kind]
  | text h =>
    refine ⟨1, fun rounds hrounds right y hright s hkeeps => ?_⟩
    obtain ⟨rounds, rfl⟩ := Nat.exists_eq_add_of_le' hrounds
    refine ends_compare_single_value host rounds (.text h) hright ?_ hkeeps
    simp [State.kind_of_payload h, Payload.kind]
  | @list o lefts xs h hsize hitems ih =>
    obtain ⟨enough, henough⟩ := enough_for_all ih
    -- One round is for the list, the others for its items.
    refine ⟨enough + 1, fun rounds hrounds right y hright s hkeeps => ?_⟩
    obtain ⟨rounds, rfl⟩ : ∃ less, rounds = less + 1 := ⟨rounds - 1, by omega⟩
    cases hright with
    | @list _ rights ys h' hsize' hitems' =>
      have hlefts := (hkeeps.kept _ (State.contains_of_list h)).trans h
      have hrights := (hkeeps.kept _ (State.contains_of_list h')).trans h'
      rw [Value.order, ← hsize, ← hsize']
      by_cases hlength : lefts.size = rights.size
      · rw [ends_compare_list host rounds hlefts hrights hlength, Nat.compare_eq_eq.mpr hlength]
        have hheld := hkeeps.held ([o, right] :: s.held)
        refine (ends_compareItems_values _ (by simpa using hsize) (by simpa using hsize') hitems'
          (henough rounds (by omega)) hheld).imp_value ?_
        rintro _ t ⟨rfl, hgrown⟩
        exact ⟨Integer.sign_ofOrdering _, (hgrown.thenMade _).unheld⟩
      · refine (ends_compare_unequal host rounds hlefts hrights hlength).imp_value ?_
        rintro _ t ⟨rfl, hgrown⟩
        refine ⟨?_, hgrown⟩
        rcases Nat.lt_or_gt_of_ne hlength with hless | hmore
        · rw [Nat.compare_eq_lt.mpr hless]
          rfl
        · rw [Nat.compare_eq_gt.mpr hmore]
          rfl
    | int h' =>
      refine ends_compare_single_value host rounds (.list h hsize hitems) (.int h') ?_ hkeeps
      simp [State.kind_of_payload h', Payload.kind]
    | text h' =>
      refine ends_compare_single_value host rounds (.list h hsize hitems) (.text h') ?_ hkeeps
      simp [State.kind_of_payload h', Payload.kind]

/-- Comparing the two gives `n`, whatever was made meanwhile. It never raises, and only makes objects. -/
def State.Compares (s : State) (host : Host) (left right : Ref) (n : Int64) : Prop :=
  ∃ enough, ∀ rounds ≥ enough, ∀ t, s.Keeps t → ((machine host rounds).compare left right).Ends t
    (fun m u => m = n ∧ t.Grown u t.shown) fun _ => False

theorem State.Means.compares (host : Host) (hleft : s.Means left x) (hright : s.Means right y) :
    s.Compares host left right (Integer.ofOrdering (x.order y)) := by
  obtain ⟨enough, hends⟩ := ends_compare_values host hleft
  exact ⟨enough, fun rounds hrounds t hkeeps => hends rounds hrounds right y hright t hkeeps⟩

theorem State.Means.order_eq_zero (hleft : s.Means left x) (hright : s.Means right y) :
    Integer.ofOrdering (x.order y) = 0 ↔ s.SameValue left right := by
  rw [Integer.ofOrdering_eq_zero, Value.order_eq_iff, State.sameValue_iff hleft hright]

theorem Integer.ofOrdering_swap (o : Ordering) : ofOrdering o.swap = - ofOrdering o := by
  cases o <;> decide

theorem Integer.ofOrdering_le_zero {o : Ordering} : ofOrdering o ≤ 0 ↔ o.isLE := by
  cases o <;> decide

/-- Values of one shape are put into a total order by comparisons, which only equal ones tie in. Values of
other shapes, if they have an end, tie only if they are equal as well. The order is that of values. -/
theorem compare_values (host : Host) (s : State) :
    (∀ shape a b c, s.Shaped shape a → s.Shaped shape b → s.Shaped shape c → ∃ ab ba bc ac,
      s.Compares host a b ab ∧ s.Compares host b a ba ∧ s.Compares host b c bc ∧
      s.Compares host a c ac ∧ (ab = 0 ↔ s.SameValue a b) ∧ ba = -ab ∧
      (ab ≤ 0 → bc ≤ 0 → ac ≤ 0)) ∧
    (∀ a b, s.Built a → s.Acyclic a → s.Built b → s.Acyclic b →
      ∃ ab, s.Compares host a b ab ∧ (ab = 0 ↔ s.SameValue a b)) ∧
    ∀ a b x y, s.Means a x → s.Means b y → s.Compares host a b (Integer.ofOrdering (x.order y)) := by
  refine ⟨?_, ?_, fun a b x y ha hb => ha.compares host hb⟩
  · intro shape a b c ha hb hc
    obtain ⟨x, ha, hx⟩ := ha.exists_value
    obtain ⟨y, hb, hy⟩ := hb.exists_value
    obtain ⟨z, hc, hz⟩ := hc.exists_value
    refine ⟨_, _, _, _, ha.compares host hb, hb.compares host ha, hb.compares host hc,
      ha.compares host hc, ha.order_eq_zero hb, ?_, fun hab hbc => ?_⟩
    · rw [Value.order_swap hx hy, Integer.ofOrdering_swap]
    · rw [Integer.ofOrdering_le_zero] at *
      exact Value.order_trans hx hy hz hab hbc
  · intro a b ha hacyclic hb hacyclic'
    obtain ⟨x, ha⟩ := ha.exists_value hacyclic
    obtain ⟨y, hb⟩ := hb.exists_value hacyclic'
    exact ⟨_, ha.compares host hb, ha.order_eq_zero hb⟩

/-- Lists of lists of ints are compared, and a list of an int and a string with itself. -/
theorem compare_values_nested :
    let s := { Globals.bare {} .discard {} with
      heap := ⟨#[.singlet "None", .map [], .map [], .int 1, .int 2, .list #[⟨3⟩, ⟨4⟩], .list #[⟨4⟩],
        .list #[⟨5⟩, ⟨6⟩], .list #[⟨6⟩, ⟨5⟩], .string "a", .list #[⟨3⟩, ⟨9⟩]]⟩ }
    (∃ ab ba, s.Compares {} ⟨7⟩ ⟨8⟩ ab ∧ s.Compares {} ⟨8⟩ ⟨7⟩ ba ∧ ba = -ab) ∧
    (∃ n, s.Compares {} ⟨10⟩ ⟨10⟩ n ∧ n = 0) ∧ s.Compares {} ⟨5⟩ ⟨6⟩ 1 := by
  intro s
  have hone : s.Means ⟨3⟩ (.int 1) := .int rfl
  have htwo : s.Means ⟨4⟩ (.int 2) := .int rfl
  have htext : s.Means ⟨9⟩ (.text "a") := .text rfl
  have hpair : s.Means ⟨5⟩ (.list [.int 1, .int 2]) := .list rfl rfl (by simp [hone, htwo])
  have hlast : s.Means ⟨6⟩ (.list [.int 2]) := .list rfl rfl (by simp [htwo])
  have hmixed : s.Means ⟨10⟩ (.list [.int 1, .text "a"]) := .list rfl rfl (by simp [hone, htext])
  have hfirst : s.Means ⟨7⟩ (.list [.list [.int 1, .int 2], .list [.int 2]]) :=
    .list rfl rfl (by simp [hpair, hlast])
  have hsecond : s.Means ⟨8⟩ (.list [.list [.int 2], .list [.int 1, .int 2]]) :=
    .list rfl rfl (by simp [hpair, hlast])
  have hfirst : s.Shaped (.list (.list .int)) ⟨7⟩ := hfirst.shaped (by simp [Value.HasShape])
  have hsecond : s.Shaped (.list (.list .int)) ⟨8⟩ := hsecond.shaped (by simp [Value.HasShape])
  obtain ⟨hshaped, hbuilt, hmeans⟩ := compare_values {} s
  refine ⟨?_, ?_, hmeans _ _ _ _ hpair hlast⟩
  · obtain ⟨ab, ba, _, _, hab, hba, -, -, -, hswap, -⟩ := hshaped _ ⟨7⟩ ⟨8⟩ ⟨7⟩ hfirst hsecond hfirst
    exact ⟨ab, ba, hab, hba, hswap⟩
  · obtain ⟨n, hn, hzero⟩ := hbuilt ⟨10⟩ ⟨10⟩ hmixed.built hmixed.acyclic hmixed.built hmixed.acyclic
    exact ⟨n, hn, hzero.mpr ⟨_, hmixed, hmixed⟩⟩

end ObjectModel
