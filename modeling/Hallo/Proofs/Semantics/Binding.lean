import Hallo.Proofs.Semantics

/-!
Variables as the rules describe them, and as frames keep them. A table is never searched by the
rules; the evaluator's frames come to the same.
-/
namespace Hallo

namespace Frame

variable {name : String} {value old : Value} {front rest table : List (String × Value)}

theorem bind_of_notMem (hname : name ∉ table.map Prod.fst) :
    bind name value table = table ++ [(name, value)] := by
  induction table with
  | nil => rfl
  | cons entry table ih =>
    rw [List.map_cons, List.mem_cons, not_or] at hname
    rw [bind, if_neg (Ne.symm hname.1), ih hname.2, List.cons_append]

theorem bind_append_cons (hfront : name ∉ front.map Prod.fst) :
    bind name value (front ++ (name, old) :: rest) = front ++ (name, value) :: rest := by
  induction front with
  | nil => rw [List.nil_append, bind, if_pos rfl, List.nil_append]
  | cons entry front ih =>
    rw [List.map_cons, List.mem_cons, not_or] at hfront
    rw [List.cons_append, bind, if_neg (Ne.symm hfront.1), ih hfront.2, List.cons_append]

/-- A table with some names bound anew, one after another. -/
def bindAll (pairs table : List (String × Value)) : List (String × Value) :=
  pairs.foldl (fun table (name, value) => bind name value table) table

theorem entering_eq (caller : Frame) (params : List String) (values : List Value) :
    caller.entering params values =
      { bindings := bindAll (params.zip values) [], functions := caller.functions } := by
  have hset : ∀ (pairs : List (String × Value)) (frame : Frame),
      pairs.foldl (fun frame (param, value) => frame.set param value) frame =
        { frame with bindings := bindAll pairs frame.bindings } := by
    intro pairs
    induction pairs with
    | nil => exact fun _ => rfl
    | cons pair pairs ih => exact fun frame => ih _
  exact hset _ caller.child

/-- Distinct names that are all new come last, in their order. -/
theorem bindAll_of_nodup {params : List String} {values : List Value} (hnodup : params.Nodup)
    (hfresh : ∀ param ∈ params, param ∉ table.map Prod.fst) :
    bindAll (params.zip values) table = table ++ params.zip values := by
  induction params generalizing table values with
  | nil => exact (List.append_nil table).symm
  | cons param params ih =>
    cases values with
    | nil => exact (List.append_nil table).symm
    | cons value values =>
      obtain ⟨hparam, hnodup⟩ := List.nodup_cons.1 hnodup
      have hothers : ∀ other ∈ params, other ∉ (table ++ [(param, value)]).map Prod.fst := by
        intro other hother
        rw [List.map_append, List.mem_append, not_or]
        refine ⟨hfresh other (List.mem_cons_of_mem param hother), fun hmem => ?_⟩
        obtain rfl : other = param := List.mem_singleton.1 hmem
        exact hparam hother
      calc bindAll ((param :: params).zip (value :: values)) table
        _ = bindAll (params.zip values) (bind param value table) := rfl
        _ = bindAll (params.zip values) (table ++ [(param, value)]) := by
          rw [bind_of_notMem (hfresh param List.mem_cons_self)]
        _ = table ++ [(param, value)] ++ params.zip values := ih hnodup hothers
        _ = table ++ (param :: params).zip (value :: values) := by
          rw [List.append_assoc, List.singleton_append, List.zip_cons_cons]

/-- The frame of a call is fresh: it holds exactly the parameters, which are distinct in every
    declaration that was parsed, and the functions of the caller. -/
theorem entering_of_nodup (caller : Frame) {params : List String} {values : List Value}
    (hnodup : params.Nodup) :
    caller.entering params values =
      { bindings := params.zip values, functions := caller.functions } := by
  rw [entering_eq, bindAll_of_nodup hnodup (by simp), List.nil_append]

end Frame

namespace Semantics

variable {name : String} {value : Value} {pairs table table' : List (String × Value)}

theorem Bound.cons {other : String} {old : Value} (hother : other ≠ name)
    (hbound : Bound name value table table') :
    Bound name value ((other, old) :: table) ((other, old) :: table') := by
  have hnot {names : List (String × Value)} (hnames : name ∉ names.map Prod.fst) :
      name ∉ ((other, old) :: names).map Prod.fst := by
    rw [List.map_cons, List.mem_cons, not_or]
    exact ⟨hother.symm, hnames⟩
  cases hbound with
  | known hfront old => exact .known (hnot hfront) old
  | new htable => exact .new (hnot htable)

/-- Frames bind a name as the rules say. -/
theorem bound_iff : Bound name value table table' ↔ table' = Frame.bind name value table := by
  constructor
  · rintro (⟨hfront, _⟩ | htable)
    · exact (Frame.bind_append_cons hfront).symm
    · exact (Frame.bind_of_notMem htable).symm
  · rintro rfl
    induction table with
    | nil => exact .new (by simp)
    | cons entry table ih =>
      obtain ⟨other, old⟩ := entry
      rw [Frame.bind]
      split
      · rename_i hother
        subst hother
        exact .known (by simp : other ∉ ([] : List (String × Value)).map Prod.fst) old
      · rename_i hother
        exact ih.cons hother

theorem boundAll_iff : BoundAll pairs table table' ↔ table' = Frame.bindAll pairs table := by
  induction pairs generalizing table with
  | nil =>
    constructor
    · rintro ⟨⟩
      rfl
    · rintro rfl
      exact .nil
  | cons pair pairs ih =>
    constructor
    · intro hbound
      cases hbound with
      | next hfirst hothers =>
        rw [ih.1 hothers, bound_iff.1 hfirst]
        rfl
    · intro htable
      exact .next (bound_iff.2 rfl) (ih.2 htable)

/-- A call is entered with the variables that the rules give it and with the caller's functions. -/
theorem receives_iff {params : List String} {values : List Value} (caller : Frame) :
    Receives params values table ↔
      caller.entering params values = { bindings := table, functions := caller.functions } := by
  constructor
  · rintro (hdistinct | ⟨_, hbound⟩)
    · exact caller.entering_of_nodup hdistinct
    · rw [Frame.entering_eq, boundAll_iff.1 hbound]
  · intro hframe
    by_cases hdistinct : params.Nodup
    · rw [caller.entering_of_nodup hdistinct] at hframe
      cases hframe
      exact .distinct hdistinct
    · rw [Frame.entering_eq] at hframe
      cases hframe
      exact .repeated hdistinct (boundAll_iff.2 rfl)

end Semantics

end Hallo
