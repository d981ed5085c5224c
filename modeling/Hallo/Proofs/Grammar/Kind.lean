import Hallo.Proofs.Grammar.Parse

/-!
What the grammar sees of a lexeme. It tells names apart, but not the values of literals: lexemes of
the same kinds spell a program or they do not.
-/
namespace Hallo

open Grammar

/-- The kind of a lexeme: all of it but the value of a literal. -/
def Lexeme.kind : Lexeme → Lexeme
  | .integer _ => .integer 0
  | .text _ => .text ""
  | .boolean _ => .boolean false
  | .name s => .name s
  | .keyword k => .keyword k
  | .mark m => .mark m
  | .endOfInput => .endOfInput

/-- A lexeme that is no literal is the only one of its kind. -/
theorem Lexeme.eq_of_kind_eq {l m : Lexeme} (hkind : m.kind = l.kind)
    (hvalue : ∀ v, ¬ Denotes l v) :
    m = l := by
  cases l with
  | integer n => exact absurd (.integer n) (hvalue _)
  | text s => exact absurd (.text s) (hvalue _)
  | boolean b => exact absurd (.boolean b) (hvalue _)
  | name | keyword | mark | endOfInput => cases m <;> simp_all [kind]

/-- Lexemes of the same kinds. -/
def SameKinds (us ts : List Lexeme) : Prop :=
  us.map Lexeme.kind = ts.map Lexeme.kind

namespace SameKinds

variable {us ts vs : List Lexeme} {l : Lexeme}

theorem nil (hsame : SameKinds us []) : us = [] :=
  List.map_eq_nil_iff.1 hsame

theorem append (hsame : SameKinds us (ts ++ vs)) :
    ∃ front back, us = front ++ back ∧ SameKinds front ts ∧ SameKinds back vs := by
  rw [SameKinds, List.map_append] at hsame
  exact List.map_eq_append_iff.1 hsame

theorem cons (hsame : SameKinds us (l :: ts)) :
    ∃ m others, us = m :: others ∧ m.kind = l.kind ∧ SameKinds others ts :=
  List.map_eq_cons_iff.1 hsame

theorem rigid (hsame : SameKinds us (l :: ts)) (hvalue : ∀ v, ¬ Denotes l v) :
    ∃ others, us = l :: others ∧ SameKinds others ts := by
  obtain ⟨m, others, rfl, hkind, hothers⟩ := hsame.cons
  exact ⟨others, by rw [Lexeme.eq_of_kind_eq hkind hvalue], hothers⟩

theorem joined (hsame : SameKinds us (ts ++ l :: vs)) (hvalue : ∀ v, ¬ Denotes l v) :
    ∃ front back, us = front ++ l :: back ∧ SameKinds front ts ∧ SameKinds back vs := by
  obtain ⟨front, others, rfl, hfront, hothers⟩ := hsame.append
  obtain ⟨back, rfl, hback⟩ := hothers.rigid hvalue
  exact ⟨front, back, rfl, hfront, hback⟩

theorem enclosed {r : Lexeme} (hsame : SameKinds us (l :: (ts ++ [r]))) (hopen : ∀ v, ¬ Denotes l v)
    (hclose : ∀ v, ¬ Denotes r v) : ∃ inner, us = l :: (inner ++ [r]) ∧ SameKinds inner ts := by
  obtain ⟨others, rfl, hothers⟩ := hsame.rigid hopen
  obtain ⟨inner, none, rfl, hinner, hnone⟩ := hothers.joined hclose
  obtain rfl := hnone.nil
  exact ⟨inner, rfl, hinner⟩

/-- Without literals there is nothing that could differ. -/
theorem eq (hsame : SameKinds us ts) (hvalue : ∀ l ∈ ts, ∀ v, ¬ Denotes l v) : us = ts := by
  induction ts generalizing us with
  | nil => exact hsame.nil
  | cons l ts ih =>
    obtain ⟨others, rfl, hothers⟩ := hsame.rigid (hvalue l List.mem_cons_self)
    rw [ih hothers fun m hmem => hvalue m (List.mem_cons_of_mem l hmem)]

end SameKinds

namespace Grammar

theorem Denotes.of_kind_eq {l m : Lexeme} {v : Value} (hdenotes : Denotes l v)
    (hkind : m.kind = l.kind) :
    ∃ w, Denotes m w := by
  cases m with
  | integer n => exact ⟨_, .integer n⟩
  | text s => exact ⟨_, .text s⟩
  | boolean b => exact ⟨_, .boolean b⟩
  | name | keyword | mark | endOfInput => cases hdenotes <;> cases hkind

theorem Additive.not_denotes {l : Lexeme} {operator : String} (hsign : Additive l operator)
    (v : Value) :
    ¬ Denotes l v := by
  cases hsign <;> nofun

theorem Multiplicative.not_denotes {l : Lexeme} {operator : String}
    (hsign : Multiplicative l operator) (v : Value) : ¬ Denotes l v := by
  cases hsign <;> nofun

theorem Comparative.not_denotes {l : Lexeme} {comparison : Comparison}
    (hkeyword : Comparative l comparison) (v : Value) : ¬ Denotes l v := by
  cases hkeyword <;> nofun

mutual

theorem Factor.of_sameKinds : ∀ {ts : List Lexeme} {t : Node}, Factor ts t → ∀ {us : List Lexeme},
    SameKinds us ts → ∃ t, Factor us t
  | _, _, .signed hsign hoperand, us, hsame => by
    obtain ⟨others, rfl, hothers⟩ := hsame.rigid hsign.not_denotes
    obtain ⟨t, ht⟩ := hoperand.of_sameKinds hothers
    exact ⟨_, .signed hsign ht⟩
  | _, _, .literal hdenotes, us, hsame => by
    obtain ⟨m, others, rfl, hkind, hothers⟩ := hsame.cons
    obtain rfl := hothers.nil
    obtain ⟨w, hw⟩ := hdenotes.of_kind_eq hkind
    exact ⟨_, .literal hw⟩
  | _, _, .group hinner, us, hsame => by
    obtain ⟨inner, rfl, hts⟩ := hsame.enclosed (by nofun) (by nofun)
    obtain ⟨t, ht⟩ := hinner.of_sameKinds hts
    exact ⟨_, .group ht⟩
  | _, _, .var name, us, hsame => by
    obtain ⟨none, rfl, hnone⟩ := hsame.rigid (by nofun)
    obtain rfl := hnone.nil
    exact ⟨_, .var name⟩
  | _, _, .call name hargs, us, hsame => by
    obtain ⟨others, rfl, hothers⟩ := hsame.rigid (by nofun)
    obtain ⟨args, hagain⟩ := hargs.of_sameKinds hothers
    exact ⟨_, .call name hagain⟩

theorem Product.of_sameKinds : ∀ {ts : List Lexeme} {t : Node}, Product ts t → ∀ {us : List Lexeme},
    SameKinds us ts → ∃ t, Product us t
  | _, _, .factor hfactor, us, hsame => by
    obtain ⟨t, ht⟩ := hfactor.of_sameKinds hsame
    exact ⟨_, .factor ht⟩
  | _, _, .join hleft hsign hright, us, hsame => by
    obtain ⟨front, back, rfl, hfront, hback⟩ := hsame.joined hsign.not_denotes
    obtain ⟨a, ha⟩ := hleft.of_sameKinds hfront
    obtain ⟨b, hb⟩ := hright.of_sameKinds hback
    exact ⟨_, .join ha hsign hb⟩

theorem Term.of_sameKinds : ∀ {ts : List Lexeme} {t : Node}, Term ts t → ∀ {us : List Lexeme},
    SameKinds us ts → ∃ t, Term us t
  | _, _, .product hproduct, us, hsame => by
    obtain ⟨t, ht⟩ := hproduct.of_sameKinds hsame
    exact ⟨_, .product ht⟩
  | _, _, .compare hleft hkeyword hright, us, hsame => by
    obtain ⟨front, back, rfl, hfront, hback⟩ := hsame.joined hkeyword.not_denotes
    obtain ⟨a, ha⟩ := hleft.of_sameKinds hfront
    obtain ⟨b, hb⟩ := hright.of_sameKinds hback
    exact ⟨_, .compare ha hkeyword hb⟩

theorem Expression.of_sameKinds : ∀ {ts : List Lexeme} {t : Node}, Expression ts t →
    ∀ {us : List Lexeme}, SameKinds us ts → ∃ t, Expression us t
  | _, _, .term hterm, us, hsame => by
    obtain ⟨t, ht⟩ := hterm.of_sameKinds hsame
    exact ⟨_, .term ht⟩
  | _, _, .join hleft hsign hright, us, hsame => by
    obtain ⟨front, back, rfl, hfront, hback⟩ := hsame.joined hsign.not_denotes
    obtain ⟨a, ha⟩ := hleft.of_sameKinds hfront
    obtain ⟨b, hb⟩ := hright.of_sameKinds hback
    exact ⟨_, .join ha hsign hb⟩

theorem Arguments.of_sameKinds : ∀ {ts : List Lexeme} {args : List Node}, Arguments ts args →
    ∀ {us : List Lexeme}, SameKinds us ts → ∃ args, Arguments us args
  | _, _, .none, us, hsame => by
    obtain ⟨others, rfl, hothers⟩ := hsame.rigid (by nofun)
    obtain ⟨none, rfl, hnone⟩ := hothers.rigid (by nofun)
    obtain rfl := hnone.nil
    exact ⟨_, .none⟩
  | _, _, .some hargs, us, hsame => by
    obtain ⟨inner, rfl, hts⟩ := hsame.enclosed (by nofun) (by nofun)
    obtain ⟨args, hagain⟩ := hargs.of_sameKinds hts
    exact ⟨_, .some hagain⟩

theorem Expressions.of_sameKinds : ∀ {ts : List Lexeme} {args : List Node}, Expressions ts args →
    ∀ {us : List Lexeme}, SameKinds us ts → ∃ args, Expressions us args
  | _, _, .last hlast, us, hsame => by
    obtain ⟨t, ht⟩ := hlast.of_sameKinds hsame
    exact ⟨_, .last ht⟩
  | _, _, .more hfirst hothers, us, hsame => by
    obtain ⟨front, back, rfl, hfront, hback⟩ := hsame.joined (by nofun)
    obtain ⟨t, ht⟩ := hfirst.of_sameKinds hfront
    obtain ⟨args, hargs⟩ := hothers.of_sameKinds hback
    exact ⟨_, .more ht hargs⟩

end

theorem Names.not_denotes {ts : List Lexeme} {names : List String} (hnames : Names ts names) :
    ∀ l ∈ ts, ∀ v, ¬ Denotes l v := by
  induction hnames with
  | last name => simp only [List.forall_mem_singleton]; nofun
  | more name hothers ih =>
    simp only [List.forall_mem_cons]
    exact ⟨by nofun, by nofun, ih⟩

theorem Parameters.not_denotes {ts : List Lexeme} {params : List String}
    (hparams : Parameters ts params) : ∀ l ∈ ts, ∀ v, ¬ Denotes l v := by
  cases hparams with
  | none =>
    simp only [List.forall_mem_cons]
    exact ⟨by nofun, by nofun, by nofun⟩
  | some hnames =>
    simp only [List.forall_mem_cons, List.forall_mem_append]
    exact ⟨by nofun, hnames.not_denotes, by nofun, by nofun⟩

mutual

theorem Statement.of_sameKinds : ∀ {ts : List Lexeme} {t : Node}, Statement ts t →
    ∀ {us : List Lexeme}, SameKinds us ts → ∃ t, Statement us t
  | _, _, .assign target hvalue, us, hsame => by
    obtain ⟨back, rfl, hback⟩ := hsame.rigid (by nofun)
    obtain ⟨others, rfl, hothers⟩ := hback.rigid (by nofun)
    obtain ⟨v, hv⟩ := hvalue.of_sameKinds hothers
    exact ⟨_, .assign target hv⟩
  | _, _, .call name hargs, us, hsame => by
    obtain ⟨others, rfl, hothers⟩ := hsame.rigid (by nofun)
    obtain ⟨args, hagain⟩ := hargs.of_sameKinds hothers
    exact ⟨_, .call name hagain⟩
  | _, _, .branch htest hbody, us, hsame => by
    obtain ⟨others, rfl, hothers⟩ := hsame.rigid (by nofun)
    obtain ⟨front, back, rfl, hfront, hback⟩ := hothers.append
    obtain ⟨test, htest⟩ := htest.of_sameKinds hfront
    obtain ⟨body, hbody⟩ := hbody.of_sameKinds hback
    exact ⟨_, .branch htest hbody⟩
  | _, _, .loop htest hbody, us, hsame => by
    obtain ⟨others, rfl, hothers⟩ := hsame.rigid (by nofun)
    obtain ⟨front, back, rfl, hfront, hback⟩ := hothers.append
    obtain ⟨test, htest⟩ := htest.of_sameKinds hfront
    obtain ⟨body, hbody⟩ := hbody.of_sameKinds hback
    exact ⟨_, .loop htest hbody⟩
  | _, _, .declare name hparams hnodup hbody, us, hsame => by
    obtain ⟨named, rfl, hnamed⟩ := hsame.rigid (by nofun)
    obtain ⟨others, rfl, hothers⟩ := hnamed.rigid (by nofun)
    obtain ⟨front, back, rfl, hfront, hback⟩ := hothers.append
    obtain rfl := hfront.eq hparams.not_denotes
    obtain ⟨body, hbody⟩ := hbody.of_sameKinds hback
    exact ⟨_, .declare name hparams hnodup hbody⟩
  | _, _, .assignTo target hvalue, us, hsame => by
    obtain ⟨named, rfl, hnamed⟩ := hsame.rigid (by nofun)
    obtain ⟨back, rfl, hback⟩ := hnamed.rigid (by nofun)
    obtain ⟨others, rfl, hothers⟩ := hback.rigid (by nofun)
    obtain ⟨v, hv⟩ := hvalue.of_sameKinds hothers
    exact ⟨_, .assignTo target hv⟩
  | _, _, .giveBack hvalue, us, hsame => by
    obtain ⟨others, rfl, hothers⟩ := hsame.rigid (by nofun)
    obtain ⟨v, hv⟩ := hvalue.of_sameKinds hothers
    exact ⟨_, .giveBack hv⟩

theorem Block.of_sameKinds : ∀ {ts : List Lexeme} {t : Node}, Block ts t → ∀ {us : List Lexeme},
    SameKinds us ts → ∃ t, Block us t
  | _, _, .block hnodes, us, hsame => by
    obtain ⟨inner, rfl, hts⟩ := hsame.enclosed (by nofun) (by nofun)
    obtain ⟨nodes, hagain⟩ := hnodes.of_sameKinds hts
    exact ⟨_, .block hagain⟩

theorem Statements.of_sameKinds : ∀ {ts : List Lexeme} {nodes : List Node}, Statements ts nodes →
    ∀ {us : List Lexeme}, SameKinds us ts → ∃ nodes, Statements us nodes
  | _, _, .empty hfollowing, us, hsame => by
    obtain ⟨nodes, hnodes⟩ := hfollowing.of_sameKinds hsame
    exact ⟨_, .empty hnodes⟩
  | _, _, .first hstatement hfollowing, us, hsame => by
    obtain ⟨front, back, rfl, hfront, hback⟩ := hsame.append
    obtain ⟨node, hnode⟩ := hstatement.of_sameKinds hfront
    obtain ⟨nodes, hnodes⟩ := hfollowing.of_sameKinds hback
    exact ⟨_, .first hnode hnodes⟩

theorem Following.of_sameKinds : ∀ {ts : List Lexeme} {nodes : List Node}, Following ts nodes →
    ∀ {us : List Lexeme}, SameKinds us ts → ∃ nodes, Following us nodes
  | _, _, .done, us, hsame => by
    obtain rfl := hsame.nil
    exact ⟨_, .done⟩
  | _, _, .lineBreak, us, hsame => by
    obtain ⟨none, rfl, hnone⟩ := hsame.rigid (by nofun)
    obtain rfl := hnone.nil
    exact ⟨_, .lineBreak⟩
  | _, _, .more hstatement hothers, us, hsame => by
    obtain ⟨others, rfl, hrest⟩ := hsame.rigid (by nofun)
    obtain ⟨front, back, rfl, hfront, hback⟩ := hrest.append
    obtain ⟨node, hnode⟩ := hstatement.of_sameKinds hfront
    obtain ⟨nodes, hnodes⟩ := hothers.of_sameKinds hback
    exact ⟨_, .more hnode hnodes⟩

end

/-- Lexemes of the same kinds as those of a program are those of a program. -/
theorem Program.of_sameKinds {ts us : List Lexeme} {nodes : List Node} (hprogram : Program ts nodes)
    (hsame : SameKinds us ts) : ∃ nodes, Program us nodes := by
  obtain @⟨ts, _, hnodes⟩ := hprogram
  obtain ⟨back, rfl, hback⟩ := hsame.rigid (by nofun)
  obtain ⟨others, rfl, hothers⟩ := hback.rigid (by nofun)
  obtain ⟨front, last, rfl, hfront, hlast⟩ := hothers.append
  obtain rfl := hlast.eq (by simp only [List.forall_mem_cons]; exact ⟨by nofun, by nofun, by nofun⟩)
  obtain ⟨nodes, hagain⟩ := hnodes.of_sameKinds hfront
  exact ⟨_, .program hagain⟩

mutual

theorem Factor.endOfInput_not_mem : ∀ {ts : List Lexeme} {t : Node}, Factor ts t → .endOfInput ∉ ts
  | _, _, .signed hsign hoperand => by cases hsign <;> simp [hoperand.endOfInput_not_mem]
  | _, _, .literal hdenotes => by cases hdenotes <;> simp
  | _, _, .group hinner => by simp [hinner.endOfInput_not_mem]
  | _, _, .var name => by simp
  | _, _, .call name hargs => by simp [hargs.endOfInput_not_mem]

theorem Product.endOfInput_not_mem :
    ∀ {ts : List Lexeme} {t : Node}, Product ts t → .endOfInput ∉ ts
  | _, _, .factor hfactor => hfactor.endOfInput_not_mem
  | _, _, .join hleft hsign hright => by
    cases hsign <;> simp [hleft.endOfInput_not_mem, hright.endOfInput_not_mem]

theorem Term.endOfInput_not_mem : ∀ {ts : List Lexeme} {t : Node}, Term ts t → .endOfInput ∉ ts
  | _, _, .product hproduct => hproduct.endOfInput_not_mem
  | _, _, .compare hleft hkeyword hright => by
    cases hkeyword <;> simp [hleft.endOfInput_not_mem, hright.endOfInput_not_mem]

theorem Expression.endOfInput_not_mem : ∀ {ts : List Lexeme} {t : Node}, Expression ts t →
    .endOfInput ∉ ts
  | _, _, .term hterm => hterm.endOfInput_not_mem
  | _, _, .join hleft hsign hright => by
    cases hsign <;> simp [hleft.endOfInput_not_mem, hright.endOfInput_not_mem]

theorem Arguments.endOfInput_not_mem : ∀ {ts : List Lexeme} {args : List Node}, Arguments ts args →
    .endOfInput ∉ ts
  | _, _, .none => by simp
  | _, _, .some hargs => by simp [hargs.endOfInput_not_mem]

theorem Expressions.endOfInput_not_mem :
    ∀ {ts : List Lexeme} {args : List Node}, Expressions ts args →
    .endOfInput ∉ ts
  | _, _, .last hlast => hlast.endOfInput_not_mem
  | _, _, .more hfirst hothers => by simp [hfirst.endOfInput_not_mem, hothers.endOfInput_not_mem]

end

theorem Names.endOfInput_not_mem {ts : List Lexeme} {names : List String}
    (hnames : Names ts names) :
    .endOfInput ∉ ts := by
  induction hnames with
  | last name => simp
  | more name hothers ih => simp [ih]

theorem Parameters.endOfInput_not_mem {ts : List Lexeme} {params : List String}
    (hparams : Parameters ts params) : .endOfInput ∉ ts := by
  cases hparams with
  | none => simp
  | some hnames => simp [hnames.endOfInput_not_mem]

mutual

theorem Statement.endOfInput_not_mem :
    ∀ {ts : List Lexeme} {t : Node}, Statement ts t → .endOfInput ∉ ts
  | _, _, .assign target hvalue => by simp [hvalue.endOfInput_not_mem]
  | _, _, .call name hargs => by simp [hargs.endOfInput_not_mem]
  | _, _, .branch htest hbody => by simp [htest.endOfInput_not_mem, hbody.endOfInput_not_mem]
  | _, _, .loop htest hbody => by simp [htest.endOfInput_not_mem, hbody.endOfInput_not_mem]
  | _, _, .declare name hparams _ hbody => by
    simp [hparams.endOfInput_not_mem, hbody.endOfInput_not_mem]
  | _, _, .assignTo target hvalue => by simp [hvalue.endOfInput_not_mem]
  | _, _, .giveBack hvalue => by simp [hvalue.endOfInput_not_mem]

theorem Block.endOfInput_not_mem : ∀ {ts : List Lexeme} {t : Node}, Block ts t → .endOfInput ∉ ts
  | _, _, .block hnodes => by simp [hnodes.endOfInput_not_mem]

theorem Statements.endOfInput_not_mem :
    ∀ {ts : List Lexeme} {nodes : List Node}, Statements ts nodes →
    .endOfInput ∉ ts
  | _, _, .empty hfollowing => hfollowing.endOfInput_not_mem
  | _, _, .first hstatement hfollowing => by
    simp [hstatement.endOfInput_not_mem, hfollowing.endOfInput_not_mem]

theorem Following.endOfInput_not_mem :
    ∀ {ts : List Lexeme} {nodes : List Node}, Following ts nodes →
    .endOfInput ∉ ts
  | _, _, .done => by simp
  | _, _, .lineBreak => by simp
  | _, _, .more hstatement hothers => by
    simp [hstatement.endOfInput_not_mem, hothers.endOfInput_not_mem]

end

/-- The end of input is the last lexeme of a program, and no other. -/
theorem Program.exists_body {ls : List Lexeme} {nodes : List Node} (hprogram : Program ls nodes) :
    ∃ ts, ls = ts ++ [.endOfInput] ∧ .endOfInput ∉ ts := by
  obtain @⟨ts, _, hnodes⟩ := hprogram
  refine ⟨.keyword .greeting :: .mark .lineBreak :: (ts ++ [.keyword .farewell]), by simp, ?_⟩
  simp [hnodes.endOfInput_not_mem]

end Grammar

end Hallo
