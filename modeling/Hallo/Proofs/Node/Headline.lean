import Hallo.Node.Outline
import Hallo.Proofs.Node.Position
import Hallo.Proofs.Value.Inspect

/-!
What the line of a node tells. It begins with the kind of the node and goes on with all that the
node carries; so nodes of programs that have the same line differ at most in their parts.
-/
namespace Hallo

theorem IsName.startsWord_of_mem {name : String} (hname : IsName name) {c : Char}
    (hmem : c ∈ name.toList) :
    Bite.startsWord c = true := by
  obtain ⟨first, tail, hchars, hfirst, _, htail, _⟩ := hname
  rw [hchars] at hmem
  rcases List.mem_cons.1 hmem with rfl | hmem
  · exact hfirst
  · have hextends := htail c hmem
    simp only [Bite.extendsName, Bool.or_eq_true] at hextends
    simp only [Bite.startsWord, Bool.or_eq_true]
    exact .inl hextends

theorem IsName.notMem {name : String} (hname : IsName name) {c : Char}
    (hc : Bite.startsWord c = false) :
    c ∉ name.toList := by
  intro hmem
  rw [hname.startsWord_of_mem hmem] at hc
  cases hc

theorem IsName.ne_empty {name : String} (hname : IsName name) : name ≠ "" := by
  rintro rfl
  obtain ⟨_, _, hchars, _⟩ := hname
  cases hchars

theorem Comparison.name_injective : Function.Injective Comparison.name := by
  intro k l
  cases k <;> cases l <;> decide

namespace Node

/-- A node whose line can be written and read: what it carries is as in programs. -/
def Legible : Node → Prop
  | .literal value => value.IsLiteral
  | .var name => IsName name
  | .unary operator _ => operator ∈ ["+", "-"]
  | .binary _ operator _ => operator ∈ ["+", "-", "*", "/"]
  | .call callee _ => IsName callee
  | .assign target _ => IsName target
  | .declare name params _ => IsName name ∧ ∀ param ∈ params, IsName param
  | .bare | .empty | .block _ | .compare _ _ _ | .branch _ _ | .loop _ _ | .giveBack _ => True

theorem DerivedAt.legible {t : Node} {position : Position} (ht : DerivedAt position t) :
    t.Legible := by
  cases position with
  | expression =>
    cases ht with
    | literal hvalue => exact hvalue
    | var hname => exact hname
    | unary hoperator _ => exact hoperator
    | binary hoperator _ _ => exact hoperator
    | compare _ _ => trivial
    | call hcallee _ => exact hcallee
  | statement =>
    cases ht with
    | call hcallee _ => exact hcallee
    | assign htarget _ => exact htarget
    | declare hname hparams _ _ => exact ⟨hname, hparams⟩
    | branch _ _ => trivial
    | loop _ _ => trivial
    | giveBack _ => trivial
  | body =>
    obtain ⟨statements, rfl, _⟩ := ht
    trivial

/-- What a node carries, as its line shows it behind the kind. -/
def label? : Node → Option String
  | .literal value => value.inspect
  | .var name => some name
  | .unary operator _ => some operator
  | .binary _ operator _ => some operator
  | .compare _ _ comparison => some comparison.name
  | .call callee _ => some callee
  | .assign target _ => some target
  | .declare name params _ => some (name ++ "(" ++ Text.joined ", " params ++ ")")
  | .bare | .empty | .block _ | .branch _ _ | .loop _ _ | .giveBack _ => none

/-- The kind of a node, and behind a space what it carries. -/
def title (t : Node) : String :=
  match t.label? with
  | some label => t.kindName ++ " " ++ label
  | none => t.kindName

theorem exists_inspect {v : Value} (hv : v.IsLiteral) : ∃ shown, v.inspect = some shown := by
  cases v with
  | integer n =>
    have hwritable : Decimal.Writable n := hv.2
    have htext : Decimal.text? n = some (Decimal.text n) := by rw [Decimal.text?, if_pos hwritable]
    exact ⟨_, by rw [Value.inspect, Value.payload, htext, Option.map_some]⟩
  | text s => exact ⟨_, rfl⟩
  | boolean b => exact ⟨_, rfl⟩
  | nothing => exact hv.elim

/-- A legible node has a line, which is its title. -/
theorem Legible.headline_eq {t : Node} (ht : t.Legible) : t.headline = .ok t.title := by
  cases t with
  | literal value =>
    obtain ⟨shown, hshown⟩ := exists_inspect ht
    rw [headline, title, label?, hshown]
    rfl
  | declare name params body => simp [headline, title, label?, String.append_assoc]
  | _ => rfl

theorem space_notMem_kindName (t : Node) : ' ' ∉ t.kindName.toList := by
  cases t <;> simp [kindName]

/-- A title begins with a capital letter. -/
theorem exists_capital (t : Node) : ∃ c rest, t.title.toList = c :: rest ∧ c.isUpper = true := by
  have hkind : t.kindName.toList.head?.map Char.isUpper = some true := by
    cases t <;> simp [kindName, Char.isUpper]
  obtain ⟨c, hhead, hupper⟩ := Option.map_eq_some_iff.1 hkind
  obtain ⟨rest, hchars⟩ := List.head?_eq_some_iff.1 hhead
  rw [title]
  cases t.label? with
  | none => exact ⟨c, rest, hchars, hupper⟩
  | some label => exact ⟨c, rest ++ ' ' :: label.toList, by simp [hchars], hupper⟩

/-- The kind ends at the first space, so a title tells the kind and what is carried apart. -/
theorem title_inj {t u : Node} (htitle : t.title = u.title) :
    t.kindName = u.kindName ∧ t.label? = u.label? := by
  have hspace := t.space_notMem_kindName
  have hspace' := u.space_notMem_kindName
  have hchars := congrArg String.toList htitle
  cases hlabel : t.label? with
  | none =>
    cases hlabel' : u.label? with
    | none => exact ⟨by simpa [title, hlabel, hlabel'] using htitle, rfl⟩
    | some label =>
      simp only [title, hlabel, hlabel'] at hchars
      exact absurd (by simp [hchars]) hspace
  | some label =>
    cases hlabel' : u.label? with
    | none =>
      simp only [title, hlabel, hlabel'] at hchars
      exact absurd (by simp [← hchars]) hspace'
    | some label' =>
      have hcut : t.kindName.toList ++ ' ' :: label.toList = u.kindName.toList ++ ' ' ::
          label'.toList := by
        simpa [title, hlabel, hlabel'] using hchars
      obtain ⟨hkind, hrest⟩ := Text.append_cons_inj hspace hspace' hcut
      exact ⟨String.toList_injective hkind, congrArg some (String.toList_injective hrest)⟩

theorem lineBreak_notMem_joined {params : List String} (hparams : ∀ param ∈ params, IsName param) :
    '\n' ∉ (Text.joined ", " params).toList := by
  induction params with
  | nil => decide
  | cons param params ih =>
    obtain ⟨hparam, hothers⟩ := List.forall_mem_cons.1 hparams
    have hfirst : '\n' ∉ param.toList := hparam.notMem (by decide)
    cases params with
    | nil => exact hfirst
    | cons next params =>
      rw [Text.toList_joined_cons]
      simpa [hfirst] using ih hothers

theorem Legible.lineBreak_notMem_label {t : Node} (ht : t.Legible) {label : String}
    (hlabel : t.label? = some label) : '\n' ∉ label.toList := by
  have hname {name : String} (hname : IsName name) : '\n' ∉ name.toList := hname.notMem (by decide)
  cases t with
  | literal value => exact Value.lineBreak_notMem_inspect hlabel
  | var name =>
    cases hlabel
    exact hname ht
  | unary operator operand =>
    cases hlabel
    simp only [Legible, List.mem_cons, List.not_mem_nil, or_false] at ht
    rcases ht with rfl | rfl <;> decide
  | binary left operator right =>
    cases hlabel
    simp only [Legible, List.mem_cons, List.not_mem_nil, or_false] at ht
    rcases ht with rfl | rfl | rfl | rfl <;> decide
  | compare left right comparison =>
    cases hlabel
    cases comparison <;> decide
  | call callee arguments =>
    cases hlabel
    exact hname ht
  | assign target value =>
    cases hlabel
    exact hname ht
  | declare name params body =>
    cases hlabel
    simp [hname ht.1, lineBreak_notMem_joined ht.2]
  | _ => cases hlabel

/-- A title stands on one line. -/
theorem Legible.lineBreak_notMem_title {t : Node} (ht : t.Legible) : '\n' ∉ t.title.toList := by
  have hkind : '\n' ∉ t.kindName.toList := by
    cases t <;> simp [kindName]
  rw [title]
  cases hlabel : t.label? with
  | none => exact hkind
  | some label => simp [hkind, ht.lineBreak_notMem_label hlabel]

/-- A declaration tells the name of the function and those of its parameters. -/
theorem declaration_inj {name name' : String} {params params' : List String} (hname : IsName name)
    (hparams : ∀ param ∈ params, IsName param) (hname' : IsName name')
    (hparams' : ∀ param ∈ params', IsName param)
    (hsame : name ++ "(" ++ Text.joined ", " params ++ ")" = name' ++ "(" ++
      Text.joined ", " params' ++ ")") :
    name = name' ∧ params = params' := by
  have hpart {param : String} (hparam : IsName param) : param ≠ "" ∧ ',' ∉ param.toList :=
    ⟨hparam.ne_empty, hparam.notMem (by decide)⟩
  have hcut : name.toList ++ '(' :: (Text.joined ", " params).toList =
      name'.toList ++ '(' :: (Text.joined ", " params').toList := by
    have hchars := congrArg String.toList ((String.append_left_inj ")").1 hsame)
    simpa using hchars
  obtain ⟨hfirst, hrest⟩ :=
    Text.append_cons_inj (hname.notMem (by decide)) (hname'.notMem (by decide)) hcut
  have hseparator : (", " : String).toList = ',' :: [' '] := rfl
  refine ⟨String.toList_injective hfirst, ?_⟩
  exact Text.joined_injective hseparator (fun param hmem => hpart (hparams param hmem))
    (fun param hmem => hpart (hparams' param hmem)) (String.toList_injective hrest)

/-- The parts of a node, wherever they belong. -/
def children (t : Node) : List Node :=
  t.parts.map Prod.snd

/-- Nodes with the same title and the same parts are the same. -/
theorem eq_of_title_eq {t u : Node} (ht : t.Legible) (hu : u.Legible) (htitle : t.title = u.title)
    (hchildren : t.children = u.children) : t = u := by
  obtain ⟨hkind, hlabel⟩ := title_inj htitle
  cases t with
  | bare =>
    cases u with
    | bare => rfl
    | _ => simp [kindName] at hkind
  | empty =>
    cases u with
    | empty => rfl
    | _ => simp [kindName] at hkind
  | block statements =>
    cases u with
    | block statements' => simpa [children, parts] using hchildren
    | _ => simp [kindName] at hkind
  | literal v =>
    cases u with
    | literal w =>
      obtain ⟨shown, hshown⟩ := exists_inspect ht
      have hsame : w.inspect = some shown := hlabel.symm.trans hshown
      rw [Value.inspect_injective hshown hsame]
    | _ => simp [kindName] at hkind
  | var name =>
    cases u with
    | var name' => simpa [label?] using hlabel
    | _ => simp [kindName] at hkind
  | unary operator operand =>
    cases u with
    | unary operator' operand' =>
      obtain rfl := Option.some.inj hlabel
      obtain rfl : operand = operand' := by simpa [children, parts] using hchildren
      rfl
    | _ => simp [kindName] at hkind
  | binary left operator right =>
    cases u with
    | binary left' operator' right' =>
      obtain rfl := Option.some.inj hlabel
      obtain ⟨rfl, rfl⟩ :
        left = left' ∧ right = right' := by simpa [children, parts] using hchildren
      rfl
    | _ => simp [kindName] at hkind
  | compare left right comparison =>
    cases u with
    | compare left' right' comparison' =>
      obtain rfl := Comparison.name_injective (Option.some.inj hlabel)
      obtain ⟨rfl, rfl⟩ :
        left = left' ∧ right = right' := by simpa [children, parts] using hchildren
      rfl
    | _ => simp [kindName] at hkind
  | call callee arguments =>
    cases u with
    | call callee' arguments' =>
      obtain rfl := Option.some.inj hlabel
      obtain rfl : arguments = arguments' := by simpa [children, parts] using hchildren
      rfl
    | _ => simp [kindName] at hkind
  | assign target value =>
    cases u with
    | assign target' value' =>
      obtain rfl := Option.some.inj hlabel
      obtain rfl : value = value' := by simpa [children, parts] using hchildren
      rfl
    | _ => simp [kindName] at hkind
  | declare name params body =>
    cases u with
    | declare name' params' body' =>
      obtain ⟨rfl, rfl⟩ := declaration_inj ht.1 ht.2 hu.1 hu.2 (Option.some.inj hlabel)
      obtain rfl : body = body' := by simpa [children, parts] using hchildren
      rfl
    | _ => simp [kindName] at hkind
  | branch test body =>
    cases u with
    | branch test' body' =>
      obtain ⟨rfl, rfl⟩ : test = test' ∧ body = body' := by simpa [children, parts] using hchildren
      rfl
    | _ => simp [kindName] at hkind
  | loop test body =>
    cases u with
    | loop test' body' =>
      obtain ⟨rfl, rfl⟩ : test = test' ∧ body = body' := by simpa [children, parts] using hchildren
      rfl
    | _ => simp [kindName] at hkind
  | giveBack value =>
    cases u with
    | giveBack value' =>
      obtain rfl : value = value' := by simpa [children, parts] using hchildren
      rfl
    | _ => simp [kindName] at hkind

end Node

end Hallo
