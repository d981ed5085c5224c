import Hallo.Node.Parser
import Hallo.Proofs.Grammar
import Hallo.Proofs.Parser

/-!
Whatever a reader of expressions takes from a feed, the grammar derives, with the tree that was
read.
-/
namespace Hallo.Parser

open Grammar

/-- Where the reader succeeds, the lexemes it takes spell what it returns. -/
def Sound {α : Type} (reader : Parser α) (spells : List Lexeme → α → Prop) : Prop :=
  ∀ {feed rest : Feed} {a : α}, feed.Proper → reader feed = .ok (a, rest) →
    ∃ ts, feed.Takes ts rest ∧ spells ts a

theorem additive?_eq_some_iff {l : Lexeme} {operator : String} :
    additive? l = some operator ↔ Additive l operator := by
  constructor
  · intro hsign
    unfold additive? at hsign
    split at hsign <;> cases hsign
    · exact .plus
    · exact .minus
  · rintro (_ | _) <;> rfl

theorem multiplicative?_eq_some_iff {l : Lexeme} {operator : String} :
    multiplicative? l = some operator ↔ Multiplicative l operator := by
  constructor
  · intro hsign
    unfold multiplicative? at hsign
    split at hsign <;> cases hsign
    · exact .times
    · exact .over
  · rintro (_ | _) <;> rfl

theorem comparison?_eq_some_iff {l : Lexeme} {comparison : Comparison} :
    comparison? l = some comparison ↔ Comparative l comparison := by
  constructor
  · intro hkeyword
    unfold comparison? at hkeyword
    split at hkeyword <;> cases hkeyword
    · exact .equals
    · exact .less
    · exact .greater
  · rintro (_ | _ | _) <;> rfl

variable {feed rest : Feed}

/-- A chain grows a prefix that spells its left operand. -/
theorem chainFrom_sound {operator? : Lexeme → Option String} {operand : Parser Node}
    {spells chained : List Lexeme → Node → Prop} (hend : operator? .endOfInput = none)
    (hoperand : Sound operand spells)
    (hjoin : ∀ {ts us a b l operator}, chained ts a → operator? l = some operator → spells us b →
      chained (ts ++ l :: us) (.binary a operator b))
    {rounds : Nat} {left node : Node} {ts : List Lexeme} (hproper : feed.Proper)
    (hleft : chained ts left)
    (hread : chainFrom operator? operand rounds left feed = .ok (node, rest)) :
    ∃ us, feed.Takes us rest ∧ chained (ts ++ us) node := by
  induction rounds generalizing feed left ts with
  | zero =>
    obtain ⟨rfl, rfl⟩ := pure_eq_ok_iff.1 hread
    exact ⟨[], .refl feed, by simpa using hleft⟩
  | succ rounds ih =>
    rw [chainFrom, bind_eq_ok_iff] at hread
    obtain ⟨token, _, hcurrent, hread⟩ := hread
    obtain ⟨htoken, rfl⟩ := current_eq_ok_iff.1 hcurrent
    cases hoperator : operator? token.lexeme with
    | none =>
      simp only [hoperator] at hread
      obtain ⟨rfl, rfl⟩ := pure_eq_ok_iff.1 hread
      exact ⟨[], .refl feed, by simpa using hleft⟩
    | some operator =>
      simp only [hoperator, bind_eq_ok_iff] at hread
      obtain ⟨_, middle, hadvance, right, behind, hright, hread⟩ := hread
      have hsign : feed.Takes [token.lexeme] middle := by
        rw [rest_of_advance hadvance]
        refine hproper.takes_rest htoken fun hlexeme => ?_
        simp [hlexeme, hend] at hoperator
      obtain ⟨us, hus, hspells⟩ := hoperand (hsign.proper hproper) hright
      obtain ⟨vs, hvs, hchained⟩ := ih ((hsign.trans hus).proper hproper)
        (hjoin hleft hoperator hspells) hread
      exact ⟨token.lexeme :: us ++ vs, (hsign.trans hus).trans hvs, by simpa using hchained⟩

theorem chain_sound {operator? : Lexeme → Option String} {operand : Parser Node}
    {spells chained : List Lexeme → Node → Prop} (hend : operator? .endOfInput = none)
    (hoperand : Sound operand spells) (hsingle : ∀ {ts a}, spells ts a → chained ts a)
    (hjoin : ∀ {ts us a b l operator}, chained ts a → operator? l = some operator → spells us b →
      chained (ts ++ l :: us) (.binary a operator b)) :
    Sound (chain operator? operand) chained := by
  intro feed rest node hproper hread
  unfold chain at hread
  rw [bind_eq_ok_iff] at hread
  obtain ⟨left, middle, hleft, hread⟩ := hread
  obtain ⟨ts, hts, hspells⟩ := hoperand hproper hleft
  obtain ⟨us, hus, hchained⟩ :=
    chainFrom_sound hend hoperand hjoin (hts.proper hproper) (hsingle hspells) hread
  exact ⟨ts ++ us, hts.trans hus, hchained⟩

theorem product_sound {factor : Parser Node} (hfactor : Sound factor Factor) :
    Sound (chain multiplicative? factor) Product :=
  chain_sound rfl hfactor .factor fun hleft hsign hright =>
    .join hleft (multiplicative?_eq_some_iff.1 hsign) hright

theorem term_sound {factor : Parser Node} (hfactor : Sound factor Factor) :
    Sound (term factor) Term := by
  intro feed rest node hproper hread
  unfold term at hread
  simp only [bind_eq_ok_iff] at hread
  obtain ⟨left, middle, hleft, token, _, hcurrent, hread⟩ := hread
  obtain ⟨htoken, rfl⟩ := current_eq_ok_iff.1 hcurrent
  obtain ⟨ts, hts, hproduct⟩ := product_sound hfactor hproper hleft
  cases hkeyword : comparison? token.lexeme with
  | none =>
    simp only [hkeyword] at hread
    obtain ⟨rfl, rfl⟩ := pure_eq_ok_iff.1 hread
    exact ⟨ts, hts, .product hproduct⟩
  | some comparison =>
    simp only [hkeyword, bind_eq_ok_iff] at hread
    obtain ⟨_, behind, hadvance, right, _, hright, hpure⟩ := hread
    obtain ⟨rfl, rfl⟩ := pure_eq_ok_iff.1 hpure
    have hcompare := comparison?_eq_some_iff.1 hkeyword
    have hsign : middle.Takes [token.lexeme] behind := by
      rw [rest_of_advance hadvance]
      refine (hts.proper hproper).takes_rest htoken fun hlexeme => ?_
      rw [hlexeme] at hcompare
      cases hcompare
    obtain ⟨us, hus, hother⟩ :=
      product_sound hfactor (hsign.proper (hts.proper hproper)) hright
    exact ⟨ts ++ ([token.lexeme] ++ us), hts.trans (hsign.trans hus),
      .compare hproduct hcompare hother⟩

theorem sum_sound {factor : Parser Node} (hfactor : Sound factor Factor) :
    Sound (sum factor) Expression :=
  chain_sound rfl (term_sound hfactor) .term fun hleft hsign hright =>
    .join hleft (additive?_eq_some_iff.1 hsign) hright

/-- Behind a first argument, further ones complete a list of arguments. -/
theorem moreArguments_sound {expression : Parser Node} (hexpression : Sound expression Expression)
    {rounds : Nat} {first : Node} {others : List Node} {ts : List Lexeme} (hproper : feed.Proper)
    (hfirst : Expression ts first)
    (hread : moreArguments expression rounds feed = .ok (others, rest)) :
    ∃ us, feed.Takes us rest ∧ Expressions (ts ++ us) (first :: others) := by
  induction rounds generalizing feed first others ts with
  | zero =>
    obtain ⟨rfl, rfl⟩ := pure_eq_ok_iff.1 hread
    exact ⟨[], .refl feed, by simpa using Expressions.last hfirst⟩
  | succ rounds ih =>
    rw [moreArguments, bind_eq_ok_iff] at hread
    obtain ⟨seen, middle, hsees, hread⟩ := hread
    obtain ⟨_, _, _, rfl⟩ := sees_eq_ok_iff.1 hsees
    cases seen with
    | false =>
      obtain ⟨rfl, rfl⟩ := pure_eq_ok_iff.1 hread
      exact ⟨[], .refl feed, by simpa using Expressions.last hfirst⟩
    | true =>
      simp only [if_true, bind_eq_ok_iff] at hread
      obtain ⟨_, _, hadvance, argument, _, hargument, arguments, _, hmore, hpure⟩ := hread
      obtain ⟨rfl, rfl⟩ := pure_eq_ok_iff.1 hpure
      have hcomma := takes_of_sees hproper (by decide) hsees hadvance
      obtain ⟨us, hus, hsecond⟩ := hexpression (hcomma.proper hproper) hargument
      obtain ⟨vs, hvs, hothers⟩ := ih ((hcomma.trans hus).proper hproper) hsecond hmore
      exact ⟨[.mark .comma] ++ us ++ vs, (hcomma.trans hus).trans hvs,
        by simpa using Expressions.more hfirst hothers⟩

theorem arguments_sound {expression : Parser Node} (hexpression : Sound expression Expression) :
    Sound (arguments expression) Arguments := by
  intro feed rest args hproper hread
  unfold arguments at hread
  simp only [bind_eq_ok_iff] at hread
  obtain ⟨_, inside, hopen, seen, _, hsees, hread⟩ := hread
  obtain ⟨_, _, _, rfl⟩ := sees_eq_ok_iff.1 hsees
  have hparen := takes_of_expect hproper (by decide) hopen
  have hinside := hparen.proper hproper
  cases seen with
  | true =>
    simp only [if_true, bind_eq_ok_iff] at hread
    obtain ⟨_, _, hadvance, hpure⟩ := hread
    obtain ⟨rfl, rfl⟩ := pure_eq_ok_iff.1 hpure
    exact ⟨_, hparen.trans (takes_of_sees hinside (by decide) hsees hadvance), .none⟩
  | false =>
    simp only [Bool.false_eq_true, if_false, bind_eq_ok_iff] at hread
    obtain ⟨first, _, hfirst, others, _, hothers, _, _, hclose, hpure⟩ := hread
    obtain ⟨rfl, rfl⟩ := pure_eq_ok_iff.1 hpure
    obtain ⟨ts, hts, hspells⟩ := hexpression hinside hfirst
    obtain ⟨us, hus, hall⟩ :=
      moreArguments_sound hexpression (hts.proper hinside) hspells hothers
    have hcloses := takes_of_expect ((hts.trans hus).proper hinside) (by decide) hclose
    exact ⟨_, hparen.trans ((hts.trans hus).trans hcloses), .some hall⟩

theorem takes_of_advance {token : Token} {u : Unit} (hproper : feed.Proper)
    (htoken : feed.current = .ok token) (hend : token.lexeme ≠ .endOfInput)
    (hadvance : advance feed = .ok (u, rest)) : feed.Takes [token.lexeme] rest := by
  rw [rest_of_advance hadvance]
  exact hproper.takes_rest htoken hend

/-- A reader of one token takes one lexeme. -/
theorem takes_of_advance_pure {α : Type} {a b : α} {token : Token} (hproper : feed.Proper)
    (htoken : feed.current = .ok token) (hend : token.lexeme ≠ .endOfInput)
    (hread : (advance >>= fun _ => pure a : Parser α) feed = .ok (b, rest)) :
    feed.Takes [token.lexeme] rest ∧ a = b := by
  rw [bind_eq_ok_iff] at hread
  obtain ⟨_, _, hadvance, hpure⟩ := hread
  obtain ⟨rfl, rfl⟩ := pure_eq_ok_iff.1 hpure
  exact ⟨takes_of_advance hproper htoken hend hadvance, rfl⟩

theorem signed_sound {depth : Nat} {l : Lexeme} {operator : String} {middle : Feed} {node : Node}
    (hfactor : Sound (factor depth) Factor) (hsign : Additive l operator) (hproper : feed.Proper)
    (htakes : feed.Takes [l] middle)
    (hread : (do
      let operand ← factor depth
      return .unary operator operand : Parser Node) middle = .ok (node, rest)) :
    ∃ ts, feed.Takes ts rest ∧ Factor ts node := by
  rw [bind_eq_ok_iff] at hread
  obtain ⟨operand, _, hoperand, hpure⟩ := hread
  obtain ⟨rfl, rfl⟩ := pure_eq_ok_iff.1 hpure
  obtain ⟨ts, hts, hspells⟩ := hfactor (htakes.proper hproper) hoperand
  exact ⟨_, htakes.trans hts, .signed hsign hspells⟩

theorem factor_sound (depth : Nat) : Sound (factor depth) Factor := by
  induction depth with
  | zero =>
    intro feed rest node hproper hread
    exact absurd hread refuse_ne_ok
  | succ depth ih =>
    intro feed rest node hproper hread
    rw [factor, bind_eq_ok_iff] at hread
    obtain ⟨token, _, hcurrent, hread⟩ := hread
    obtain ⟨htoken, rfl⟩ := current_eq_ok_iff.1 hcurrent
    cases hlexeme : token.lexeme with
    | integer n =>
      simp only [hlexeme] at hread
      obtain ⟨htakes, rfl⟩ := takes_of_advance_pure hproper htoken (by simp [hlexeme]) hread
      exact ⟨_, hlexeme ▸ htakes, .literal (.integer n)⟩
    | text s =>
      simp only [hlexeme] at hread
      obtain ⟨htakes, rfl⟩ := takes_of_advance_pure hproper htoken (by simp [hlexeme]) hread
      exact ⟨_, hlexeme ▸ htakes, .literal (.text s)⟩
    | boolean b =>
      simp only [hlexeme] at hread
      obtain ⟨htakes, rfl⟩ := takes_of_advance_pure hproper htoken (by simp [hlexeme]) hread
      exact ⟨_, hlexeme ▸ htakes, .literal (.boolean b)⟩
    | name name =>
      simp only [hlexeme, bind_eq_ok_iff] at hread
      obtain ⟨_, _, hadvance, seen, _, hsees, hread⟩ := hread
      obtain ⟨_, _, _, rfl⟩ := sees_eq_ok_iff.1 hsees
      have hname := takes_of_advance hproper htoken (by simp [hlexeme]) hadvance
      rw [hlexeme] at hname
      cases seen with
      | false =>
        obtain ⟨rfl, rfl⟩ := pure_eq_ok_iff.1 hread
        exact ⟨_, hname, .var name⟩
      | true =>
        simp only [if_true, bind_eq_ok_iff] at hread
        obtain ⟨args, _, hargs, hpure⟩ := hread
        obtain ⟨rfl, rfl⟩ := pure_eq_ok_iff.1 hpure
        obtain ⟨ts, hts, hspells⟩ := arguments_sound (sum_sound ih) (hname.proper hproper) hargs
        exact ⟨_, hname.trans hts, .call name hspells⟩
    | keyword k =>
      simp only [hlexeme] at hread
      exact absurd hread refuse_ne_ok
    | endOfInput =>
      simp only [hlexeme] at hread
      exact absurd hread refuse_ne_ok
    | mark m =>
      cases m with
      | plus =>
        simp only [hlexeme] at hread
        rw [bind_eq_ok_iff] at hread
        obtain ⟨_, _, hadvance, hread⟩ := hread
        have hsign := takes_of_advance hproper htoken (by simp [hlexeme]) hadvance
        exact signed_sound ih .plus hproper (hlexeme ▸ hsign) hread
      | minus =>
        simp only [hlexeme] at hread
        rw [bind_eq_ok_iff] at hread
        obtain ⟨_, _, hadvance, hread⟩ := hread
        have hsign := takes_of_advance hproper htoken (by simp [hlexeme]) hadvance
        exact signed_sound ih .minus hproper (hlexeme ▸ hsign) hread
      | parenOpen =>
        simp only [hlexeme, bind_eq_ok_iff] at hread
        obtain ⟨_, _, hadvance, inner, _, hinner, _, _, hclose, hpure⟩ := hread
        obtain ⟨rfl, rfl⟩ := pure_eq_ok_iff.1 hpure
        have hopen := takes_of_advance hproper htoken (by simp [hlexeme]) hadvance
        rw [hlexeme] at hopen
        obtain ⟨ts, hts, hspells⟩ := sum_sound ih (hopen.proper hproper) hinner
        have hcloses := takes_of_expect ((hopen.trans hts).proper hproper) (by decide) hclose
        exact ⟨_, hopen.trans (hts.trans hcloses), .group hspells⟩
      | star | slash | parenClose | comma | assign | lineBreak =>
        simp only [hlexeme] at hread
        exact absurd hread refuse_ne_ok

theorem expression_sound : Sound expression Expression := by
  intro feed rest node hproper hread
  exact sum_sound (factor_sound feed.queue.length) hproper hread

end Hallo.Parser
