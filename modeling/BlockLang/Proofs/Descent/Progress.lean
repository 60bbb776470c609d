import BlockLang.Proofs.Descent

/-! # Progress of the descent

Every procedure of the descent comes to an end wherever it is begun, and it leaves the position
where it was or further on, but not beyond the last token. A statement passes a token if one is
left. What is called behind a token has fewer tokens left, so procedures that call each other are
told from the end of the tokens backwards.
-/
namespace BlockLang

namespace Stand

variable {tokens : List Token} {stand : Stand tokens}

theorem position_lt {token : Token} (h : stand.next? = some token) :
    stand.position < tokens.length :=
  (List.getElem?_eq_some_iff.1 h).1

theorem exists_next (h : stand.position < tokens.length) : ∃ token, stand.next? = some token :=
  ⟨_, List.getElem?_eq_getElem h⟩

theorem isNext_iff {kind : TokenKind} :
    stand.isNext kind = true ↔ ∃ token, stand.next? = some token ∧ token.kind = kind := by
  unfold isNext
  cases stand.next? <;> simp

theorem isAtEnd_iff : stand.isAtEnd = true ↔ tokens.length ≤ stand.position := by
  simp [isAtEnd]

theorem position_advance (h : stand.position < tokens.length) :
    stand.advance.position = stand.position + 1 := by
  simp [advance, h]

theorem le_position_advance (stand : Stand tokens) : stand.position ≤ stand.advance.position := by
  unfold advance
  split <;> simp

theorem position_advance_le (h : stand.position ≤ tokens.length) :
    stand.advance.position ≤ tokens.length := by
  unfold advance
  split
  · assumption
  · exact h

end Stand

namespace Descent
open OperandRule StatementRule

variable {tokens : List Token} {α β : Type} {stand : Stand tokens} {n bound : Nat}

/-- A procedure comes to an end, with a result and a stand as described. -/
def Ends (procedure : Descent tokens α) (stand : Stand tokens) (post : α → Stand tokens → Prop) :
    Prop :=
  ∃ value later, procedure stand = some (value, later) ∧ post value later

theorem Ends.mono {procedure : Descent tokens α} {post weaker : α → Stand tokens → Prop}
    (h : Ends procedure stand post) (hw : ∀ value later, post value later → weaker value later) :
    Ends procedure stand weaker := by
  obtain ⟨value, later, hrun, hp⟩ := h
  exact ⟨value, later, hrun, hw value later hp⟩

theorem ends_pure {value : α} {post : α → Stand tokens → Prop} (h : post value stand) :
    Ends (pure value) stand post :=
  ⟨value, stand, rfl, h⟩

theorem Ends.bind {procedure : Descent tokens α} {next : α → Descent tokens β}
    {between : α → Stand tokens → Prop} {post : β → Stand tokens → Prop}
    (h : Ends procedure stand between)
    (hn : ∀ value later, between value later → Ends (next value) later post) :
    Ends (procedure >>= next) stand post := by
  obtain ⟨value, later, hrun, hb⟩ := h
  obtain ⟨result, final, hnext, hp⟩ := hn value later hb
  refine ⟨result, final, ?_, hp⟩
  simp only [Bind.bind, StateT.bind, hrun, Option.bind]
  exact hnext

theorem ends_advance {next : Unit → Descent tokens α} {post : α → Stand tokens → Prop} :
    Ends (advance >>= next) stand post ↔ Ends (next ()) stand.advance post :=
  Iff.rfl

/-- A procedure comes to an end, no earlier than at a position and not beyond the last token. -/
def Lands (bound : Nat) (procedure : Descent tokens α) (stand : Stand tokens) : Prop :=
  Ends procedure stand fun _ later => bound ≤ later.position ∧ later.position ≤ tokens.length

theorem Lands.mono {procedure : Descent tokens α} {least : Nat} (h : Lands bound procedure stand)
    (hle : least ≤ bound) : Lands least procedure stand :=
  Ends.mono h fun _ _ hp => ⟨Nat.le_trans hle hp.1, hp.2⟩

/-- From a position on, a procedure comes to an end and does not move back. -/
def MovesFrom (n : Nat) (procedure : Descent tokens α) : Prop :=
  ∀ stand : Stand tokens, n ≤ stand.position → stand.position ≤ tokens.length →
    Lands stand.position procedure stand

/-- From a position on, a procedure comes to an end and passes a token if one is left. -/
def PassesFrom (n : Nat) (procedure : Descent tokens α) : Prop :=
  ∀ stand : Stand tokens, n ≤ stand.position → stand.position < tokens.length →
    Lands (stand.position + 1) procedure stand

theorem MovesFrom.mono {procedure : Descent tokens α} {m : Nat} (h : MovesFrom n procedure)
    (hle : n ≤ m) : MovesFrom m procedure :=
  fun stand hm hl => h stand (Nat.le_trans hle hm) hl

/-- Behind the last token there is nothing to show, so it is enough to come from each position to
the one before it. -/
theorem movesFrom_of_succ {ι : Type} (procedure : ι → Descent tokens α)
    (h : ∀ m, n ≤ m → (∀ i, MovesFrom (m + 1) (procedure i)) → ∀ i, MovesFrom m (procedure i))
    (i : ι) : MovesFrom n (procedure i) := by
  have hleft : ∀ left m, n ≤ m → tokens.length < m + left → ∀ i, MovesFrom m (procedure i) := by
    intro left
    induction left with
    | zero =>
      intro m _ hlt i stand hm hl
      omega
    | succ left ih =>
      intro m hle hlt
      exact h m hle (ih (m + 1) (by omega) (by omega))
  exact hleft (tokens.length + 1) n (Nat.le_refl n) (by omega) i

/-! ## Steps -/

theorem movesFrom_pure (value : α) : MovesFrom n (pure value : Descent tokens α) :=
  fun _ _ hl => ends_pure ⟨Nat.le_refl _, hl⟩

theorem Lands.bind {procedure : Descent tokens α} {next : α → Descent tokens β}
    (h : Lands bound procedure stand) (hn : ∀ value, MovesFrom bound (next value)) :
    Lands bound (procedure >>= next) stand :=
  Ends.bind h fun value later hp => (hn value later hp.1 hp.2).mono hp.1

theorem MovesFrom.bind {procedure : Descent tokens α} {next : α → Descent tokens β}
    (h : MovesFrom n procedure) (hn : ∀ value, MovesFrom n (next value)) :
    MovesFrom n (procedure >>= next) :=
  fun stand hs hl => (h stand hs hl).bind fun value => (hn value).mono hs

theorem movesFrom_look {view : Stand tokens → α} {next : α → Descent tokens β}
    (h : ∀ value, MovesFrom n (next value)) : MovesFrom n (look view >>= next) :=
  fun stand hs hl => h (view stand) stand hs hl

theorem lands_some {next : Option Token → Descent tokens α} {token : Token}
    (ht : stand.next? = some token) (h : Lands bound (next (some token)) stand) :
    Lands bound (look Stand.next? >>= next) stand := by
  change Lands bound (next stand.next?) stand
  rw [ht]
  exact h

/-- Looking at the next token shows whether one is left. -/
theorem lands_next {next : Option Token → Descent tokens α} (hnone : Lands bound (next none) stand)
    (hsome : ∀ token, stand.next? = some token → Lands bound (next (some token)) stand) :
    Lands bound (look Stand.next? >>= next) stand := by
  cases ht : stand.next? with
  | none =>
    change Lands bound (next stand.next?) stand
    rw [ht]
    exact hnone
  | some token => exact lands_some ht (hsome token ht)

theorem movesFrom_advance : MovesFrom n (advance : Descent tokens Unit) :=
  fun stand _ hl => ⟨(), stand.advance, rfl, stand.le_position_advance,
    Stand.position_advance_le hl⟩

/-- Whatever moves on behind a token passes it if it begins in front of it. -/
theorem passesFrom_advance {next : Unit → Descent tokens α} (h : MovesFrom (n + 1) (next ())) :
    PassesFrom n (advance >>= next) := by
  intro stand hn hlt
  rw [← Stand.position_advance hlt]
  apply h stand.advance
  · rw [Stand.position_advance hlt]
    omega
  · exact Stand.position_advance_le (Nat.le_of_lt hlt)

/-- A procedure that moves past the next token if that is of some sort. -/
theorem movesFrom_ifNext {sort : Token → Prop} [DecidablePred sort]
    {behind : Token → Descent tokens α} {otherwise : Descent tokens α}
    (hb : ∀ token, MovesFrom (n + 1) (behind token)) (ho : MovesFrom n otherwise) :
    MovesFrom n (do
      match ← look Stand.next? with
      | some token =>
        if sort token then
          advance
          behind token
        else
          otherwise
      | none => otherwise : Descent tokens α) := by
  intro stand hn hl
  refine lands_next (ho stand hn hl) fun token ht => ?_
  dsimp only
  split
  · exact (passesFrom_advance (hb token) stand hn (Stand.position_lt ht)).mono (Nat.le_succ _)
  · exact ho stand hn hl

theorem movesFrom_failWith (kind : SyntaxError.Kind) (message : String) :
    MovesFrom n (failWith kind message : Descent tokens Node) :=
  fun stand _ hl => ⟨_, stand.record ⟨kind, message, stand.blame⟩, rfl, Nat.le_refl _, hl⟩

theorem movesFrom_fail (cause : SyntaxError.Cause) :
    MovesFrom n (fail cause : Descent tokens Node) :=
  movesFrom_failWith _ _

theorem movesFrom_failPast (cause : SyntaxError.Cause) :
    MovesFrom n (failPast cause : Descent tokens Node) :=
  (movesFrom_fail cause).bind fun _ => movesFrom_advance.bind fun _ => movesFrom_pure _

/-- The failure is recorded in front of the token that it passes. -/
theorem passesFrom_failPast (cause : SyntaxError.Cause) :
    PassesFrom n (failPast cause : Descent tokens Node) := by
  intro stand hn hlt
  have hp : PassesFrom n (do advance; return Node.leaf .error cause.message stand.blame.line :
      Descent tokens Node) := passesFrom_advance (movesFrom_pure _)
  exact hp (stand.record ⟨cause.kind, cause.message, stand.blame⟩) hn hlt

theorem movesFrom_accept (kind : TokenKind) : MovesFrom n (accept kind : Descent tokens Bool) := by
  refine movesFrom_look fun found => ?_
  split
  · exact movesFrom_advance.bind fun _ => movesFrom_pure true
  · exact movesFrom_pure false

theorem run_accept_bind (kind : TokenKind) (next : Bool → Descent tokens α)
    (stand : Stand tokens) : (accept kind >>= next) stand =
      if stand.isNext kind then next true stand.advance else next false stand := by
  change ((if stand.isNext kind then _ else _ : Descent tokens Bool) >>= next) stand = _
  split <;> rfl

/-- A token of the kind has been passed if one was next. -/
theorem movesFrom_accept_bind {kind : TokenKind} {next : Bool → Descent tokens α}
    (ht : MovesFrom (n + 1) (next true)) (hf : MovesFrom n (next false)) :
    MovesFrom n (accept kind >>= next) := by
  intro stand hn hl
  rw [Lands, Ends, run_accept_bind]
  split
  · rename_i hk
    obtain ⟨token, hk, -⟩ := Stand.isNext_iff.1 hk
    have hp : PassesFrom n (do advance; next true) := passesFrom_advance ht
    exact (hp stand hn (Stand.position_lt hk)).mono (Nat.le_succ _)
  · exact hf stand hn hl

theorem movesFrom_expect (kind : TokenKind) (cause : SyntaxError.Cause) (node : Node) :
    MovesFrom n (expect kind cause node : Descent tokens Node) :=
  movesFrom_accept_bind (movesFrom_pure node)
    ((movesFrom_fail cause).bind fun _ => movesFrom_pure _)

/-- A procedure begins by moving past a token, and behind it moves on wherever another does. -/
def Opens (callee : Descent tokens β) (procedure : Descent tokens α) : Prop :=
  ∀ stand : Stand tokens, ∃ body : Descent tokens α,
    procedure stand = body stand.advance ∧ ∀ n, MovesFrom n callee → MovesFrom n body

theorem opens_advance {callee : Descent tokens β} {next : Unit → Descent tokens α}
    (h : ∀ n, MovesFrom n callee → MovesFrom n (next ())) : Opens callee (advance >>= next) :=
  fun _ => ⟨next (), rfl, h⟩

theorem opens_look {γ : Type} {callee : Descent tokens β} {view : Stand tokens → γ}
    {next : γ → Descent tokens α} (h : ∀ value, Opens callee (next value)) :
    Opens callee (look view >>= next) :=
  fun stand => h (view stand) stand

theorem Opens.movesFrom {callee : Descent tokens β} {procedure : Descent tokens α}
    (h : Opens callee procedure) (hc : MovesFrom n callee) : MovesFrom n procedure := by
  intro stand hn hl
  obtain ⟨body, hrun, hb⟩ := h stand
  have hle := stand.le_position_advance
  have hbody : Lands stand.position body stand.advance :=
    (hb n hc stand.advance (Nat.le_trans hn hle) (Stand.position_advance_le hl)).mono hle
  rw [Lands, Ends, hrun]
  exact hbody

theorem Opens.passesFrom {callee : Descent tokens β} {procedure : Descent tokens α}
    (h : Opens callee procedure) (hc : MovesFrom (n + 1) callee) : PassesFrom n procedure := by
  intro stand hn hlt
  obtain ⟨body, hrun, hb⟩ := h stand
  have hbody : PassesFrom n (do advance; body) := passesFrom_advance (hb (n + 1) hc)
  rw [Lands, Ends, hrun]
  exact hbody stand hn hlt

/-! ## Operands -/

theorem movesFrom_literal (kind : NodeKind) (token : Token) :
    MovesFrom n (literal kind token : Descent tokens Node) :=
  movesFrom_advance.bind fun _ => movesFrom_pure _

theorem movesFrom_stringContents : MovesFrom n (stringContents : Descent tokens Node) :=
  movesFrom_ifNext (fun _ => movesFrom_expect _ _ _) (movesFrom_fail _)

theorem opens_subscript : Opens expression.run (subscript.run : Descent tokens Node) := by
  rw [OperandRule.run]
  refine opens_look fun line => opens_advance fun n he => he.bind fun index => ?_
  exact movesFrom_accept_bind (movesFrom_pure _) (movesFrom_fail _)

theorem movesFrom_identifier (he : MovesFrom (n + 1) (expression.run : Descent tokens Node))
    (name : Token) : MovesFrom n ((identifier name).run : Descent tokens Node) := by
  intro stand hn hl
  rw [OperandRule.run]
  change Lands _ (if stand.isNext .leftBracket then _ else _) stand
  split
  · rename_i hb
    obtain ⟨bracket, hb, -⟩ := Stand.isNext_iff.1 hb
    have hs := opens_subscript.passesFrom he stand hn (Stand.position_lt hb)
    exact (hs.mono (Nat.le_succ _)).bind fun _ => movesFrom_pure _
  · exact movesFrom_pure _ stand hn hl

theorem movesFrom_factor (he : MovesFrom (n + 1) (expression.run : Descent tokens Node)) :
    MovesFrom n (factor.run : Descent tokens Node) := by
  intro stand hn hl
  rw [OperandRule.run]
  refine lands_next (movesFrom_fail _ stand hn hl) fun token ht => ?_
  have hlt := Stand.position_lt ht
  have hbehind {procedure : Descent tokens Node} (h : MovesFrom (n + 1) procedure) :
      Lands stand.position (do advance; procedure) stand :=
    (passesFrom_advance h stand hn hlt).mono (Nat.le_succ _)
  dsimp only
  split
  iterate 4
    · exact movesFrom_literal _ _ stand hn hl
  · exact hbehind (movesFrom_identifier (he.mono (Nat.le_succ _)) token)
  · refine hbehind (he.bind fun inner => movesFrom_accept_bind ?_ ?_)
    · exact movesFrom_pure inner
    · exact movesFrom_fail _
  · exact hbehind movesFrom_stringContents
  · split
    · exact movesFrom_fail _ stand hn hl
    · exact movesFrom_failPast _ stand hn hl

theorem movesFrom_termFrom (he : MovesFrom (n + 1) (expression.run : Descent tokens Node))
    (left : Node) : MovesFrom n ((termFrom left).run : Descent tokens Node) := by
  refine movesFrom_of_succ (fun left => (termFrom left).run) (fun m hm ih left => ?_) left
  have hf : MovesFrom (m + 1) (factor.run : Descent tokens Node) :=
    movesFrom_factor (he.mono (by omega))
  rw [OperandRule.run]
  exact movesFrom_ifNext (fun _ => hf.bind fun _ => ih _) (movesFrom_pure left)

theorem movesFrom_term (he : MovesFrom (n + 1) (expression.run : Descent tokens Node)) :
    MovesFrom n (term.run : Descent tokens Node) := by
  rw [OperandRule.run]
  exact (movesFrom_factor he).bind (movesFrom_termFrom he)

theorem movesFrom_expressionFrom (he : MovesFrom (n + 1) (expression.run : Descent tokens Node))
    (left : Node) : MovesFrom n ((expressionFrom left).run : Descent tokens Node) := by
  refine movesFrom_of_succ (fun left => (expressionFrom left).run) (fun m hm ih left => ?_) left
  have ht : MovesFrom (m + 1) (term.run : Descent tokens Node) :=
    movesFrom_term (he.mono (by omega))
  rw [OperandRule.run]
  exact movesFrom_ifNext (fun _ => ht.bind fun _ => ih _) (movesFrom_pure left)

theorem movesFrom_expression : MovesFrom n (expression.run : Descent tokens Node) := by
  refine movesFrom_of_succ (fun _ : Unit => expression.run) (fun m _ ih _ => ?_) ()
  rw [OperandRule.run]
  exact (movesFrom_term (ih ())).bind (movesFrom_expressionFrom (ih ()))

theorem movesFrom_comparisonFrom (left : Node) :
    MovesFrom n (comparisonFrom left : Descent tokens Node) :=
  movesFrom_ifNext (fun _ => movesFrom_expression.bind fun _ => movesFrom_pure _)
    (movesFrom_pure left)

theorem movesFrom_condition : MovesFrom n (condition : Descent tokens Node) :=
  movesFrom_expression.bind movesFrom_comparisonFrom

theorem movesFrom_within {procedure : Descent tokens Node} (kind : NodeKind) (text : String)
    (h : MovesFrom n procedure) : MovesFrom n (within kind text procedure) :=
  movesFrom_look fun _ => h.bind fun _ => movesFrom_pure _

/-! ## Simple statements -/

theorem movesFrom_assignTo (inHeader : Bool) (name : Token) :
    MovesFrom n (assignTo inHeader name : Descent tokens Node) := by
  refine (movesFrom_identifier movesFrom_expression name).bind fun target => ?_
  refine movesFrom_accept_bind (movesFrom_condition.bind fun source => ?_) (movesFrom_fail _)
  dsimp only
  split
  · exact movesFrom_pure _
  · exact movesFrom_expect _ _ _

theorem movesFrom_assignment (inHeader : Bool) :
    MovesFrom n (assignment inHeader : Descent tokens Node) :=
  movesFrom_ifNext (fun name => movesFrom_assignTo inHeader name) (movesFrom_fail _)

/-- An assignment passes the name that it begins with. -/
theorem lands_assignment {name : Token} (hname : stand.next? = some name)
    (hk : name.kind = .identifier) (inHeader : Bool) :
    Lands (stand.position + 1) (assignment inHeader) stand := by
  refine lands_some hname ?_
  dsimp only
  rw [if_pos hk]
  exact passesFrom_advance (movesFrom_assignTo inHeader name) stand (Nat.le_refl _)
    (Stand.position_lt hname)

theorem movesFrom_declaratorSuffix (name : Token) (item : Node) :
    MovesFrom n (declaratorSuffix name item : Descent tokens Node) := by
  refine movesFrom_look fun next => ?_
  split
  · split
    · exact (opens_subscript.movesFrom movesFrom_expression).bind fun _ => movesFrom_pure _
    · split
      iterate 3
        · exact movesFrom_pure _
      · exact (movesFrom_failPast _).bind fun _ => movesFrom_pure _
  · exact movesFrom_pure _

theorem movesFrom_declarator : MovesFrom n (declarator : Descent tokens Node) := by
  refine movesFrom_ifNext (fun name => ?_) (movesFrom_failPast _)
  refine (movesFrom_declaratorSuffix _ _).bind fun item => ?_
  refine movesFrom_accept_bind ?_ (movesFrom_pure item)
  exact (movesFrom_within _ _ movesFrom_condition).bind fun _ => movesFrom_pure _

/-- The loop goes on only behind a comma. -/
theorem movesFrom_declaratorLoop (node : Node) :
    MovesFrom n ((declaratorLoop node).run : Descent tokens Node) := by
  refine movesFrom_of_succ (fun node => (declaratorLoop node).run) (fun m _ ih node => ?_) node
  rw [StatementRule.run]
  exact movesFrom_accept_bind (movesFrom_declarator.bind fun item => ih _) (movesFrom_pure node)

theorem opens_declaration (callee : Descent tokens β) (keyword : Token) :
    Opens callee ((declaration keyword).run : Descent tokens Node) := by
  rw [StatementRule.run]
  exact opens_advance fun _ _ => movesFrom_declarator.bind fun _ =>
    (movesFrom_declaratorLoop _).bind fun node => movesFrom_expect _ _ node

theorem movesFrom_readTarget (keyword : Token) :
    MovesFrom n (readTarget keyword : Descent tokens Node) := by
  refine movesFrom_ifNext (fun name => ?_) (movesFrom_failPast _)
  refine (movesFrom_identifier movesFrom_expression name).bind fun target => ?_
  refine movesFrom_accept_bind ?_ (movesFrom_fail _)
  exact movesFrom_accept_bind (movesFrom_pure _) (movesFrom_fail _)

theorem opens_readStatement (callee : Descent tokens β) (keyword : Token) :
    Opens callee (readStatement keyword : Descent tokens Node) :=
  opens_advance fun _ _ => movesFrom_accept_bind (movesFrom_readTarget keyword) (movesFrom_fail _)

theorem opens_writeStatement (callee : Descent tokens β) (keyword : Token) :
    Opens callee (writeStatement keyword : Descent tokens Node) := by
  refine opens_advance fun n _ => movesFrom_accept_bind ?_ (movesFrom_fail _)
  refine movesFrom_expression.bind fun value => movesFrom_accept_bind ?_ (movesFrom_fail _)
  exact movesFrom_accept_bind (movesFrom_pure _) (movesFrom_fail _)

/-! ## Statements -/

theorem movesFrom_header (noOpening noClosing : SyntaxError.Cause) (node : Node) :
    MovesFrom n (header noOpening noClosing node : Descent tokens Node) := by
  refine (movesFrom_expect _ _ _).bind fun node => ?_
  exact (movesFrom_within _ _ movesFrom_condition).bind fun test => movesFrom_expect _ _ _

theorem movesFrom_alternative (hb : MovesFrom n (block.run : Descent tokens Node)) (node : Node) :
    MovesFrom n ((alternative node).run : Descent tokens Node) := by
  rw [StatementRule.run]
  refine movesFrom_ifNext (fun word => ?_) (movesFrom_pure node)
  exact (hb.mono (Nat.le_succ _)).bind fun body => movesFrom_pure _

theorem opens_ifStatement (keyword : Token) :
    Opens block.run ((ifStatement keyword).run : Descent tokens Node) := by
  rw [StatementRule.run]
  refine opens_advance fun n hb => (movesFrom_header _ _ _).bind fun node => ?_
  exact hb.bind fun body => movesFrom_alternative hb _

theorem opens_whileStatement (keyword : Token) :
    Opens block.run ((whileStatement keyword).run : Descent tokens Node) := by
  rw [StatementRule.run]
  refine opens_advance fun n hb => (movesFrom_header _ _ _).bind fun node => ?_
  exact hb.bind fun body => movesFrom_pure _

theorem opens_forStatement (keyword : Token) :
    Opens block.run ((forStatement keyword).run : Descent tokens Node) := by
  rw [StatementRule.run]
  refine opens_advance fun n hb => (movesFrom_expect _ _ _).bind fun node => ?_
  refine (movesFrom_within _ _ (movesFrom_assignment true)).bind fun init => ?_
  refine movesFrom_accept_bind ?_ (movesFrom_fail _)
  refine (movesFrom_within _ _ movesFrom_condition).bind fun test => ?_
  refine movesFrom_accept_bind ?_ (movesFrom_fail _)
  refine (movesFrom_within _ _ (movesFrom_assignment true)).bind fun step => ?_
  refine (movesFrom_expect _ _ _).bind fun node => ?_
  exact (hb.mono (by omega)).bind fun body => movesFrom_pure _

/-- Whatever a statement begins with, it passes a token; only blocks behind that token matter. -/
theorem passesFrom_statement (hb : MovesFrom (n + 1) (block.run : Descent tokens Node)) :
    PassesFrom n (statement.run : Descent tokens Node) := by
  intro stand hn hlt
  obtain ⟨token, ht⟩ := Stand.exists_next hlt
  rw [StatementRule.run]
  refine lands_some ht ?_
  dsimp only
  split
  · rename_i hk
    exact lands_assignment ht hk false
  · exact (opens_ifStatement token).passesFrom hb stand hn hlt
  · exact (opens_whileStatement token).passesFrom hb stand hn hlt
  · exact (opens_forStatement token).passesFrom hb stand hn hlt
  · exact (opens_readStatement block.run token).passesFrom hb stand hn hlt
  · exact (opens_writeStatement block.run token).passesFrom hb stand hn hlt
  iterate 4
    · exact (opens_declaration block.run token).passesFrom hb stand hn hlt
  · exact passesFrom_failPast _ stand hn hlt

theorem movesFrom_statement (hb : MovesFrom (n + 1) (block.run : Descent tokens Node)) :
    MovesFrom n (statement.run : Descent tokens Node) := by
  intro stand hn hl
  rcases Nat.lt_or_eq_of_le hl with hlt | hend
  · exact (passesFrom_statement hb stand hn hlt).mono (Nat.le_succ _)
  · rw [StatementRule.run]
    refine lands_next (movesFrom_failWith _ _ stand hn hl) fun token ht => ?_
    have hlt := Stand.position_lt ht
    omega

theorem movesFrom_blockLoop (hb : MovesFrom (n + 1) (block.run : Descent tokens Node))
    (node : Node) : MovesFrom n ((blockLoop node).run : Descent tokens Node) := by
  refine movesFrom_of_succ (fun node => (blockLoop node).run) ?_ node
  intro m hm ih node stand hs hl
  rw [StatementRule.run]
  refine lands_next (movesFrom_pure node stand hs hl) fun token ht => ?_
  dsimp only
  split
  · exact movesFrom_pure node stand hs hl
  · have hpass :=
      passesFrom_statement (hb.mono (Nat.succ_le_succ hm)) stand hs (Stand.position_lt ht)
    refine (hpass.bind fun child => ?_).mono (Nat.le_succ _)
    exact (ih (node.push child)).mono (Nat.succ_le_succ hs)

theorem movesFrom_block : MovesFrom n (block.run : Descent tokens Node) := by
  refine movesFrom_of_succ (fun _ : Unit => block.run) (fun m _ ih _ => ?_) ()
  have hb : MovesFrom (m + 1) (block.run : Descent tokens Node) := ih ()
  rw [StatementRule.run]
  refine movesFrom_look fun line => movesFrom_accept_bind ?_ (movesFrom_look fun atEnd => ?_)
  · have hloop := movesFrom_blockLoop (hb.mono (Nat.le_succ _))
    exact (hloop _).bind fun node => movesFrom_expect _ _ node
  · split
    · exact (movesFrom_fail _).bind fun _ => movesFrom_pure _
    · exact (movesFrom_statement hb).bind fun _ => movesFrom_pure _

/-- The loop over a program ends behind the last token, and each child has passed one. -/
theorem ends_programLoop (node : Node) (stand : Stand tokens)
    (h : stand.position ≤ tokens.length) :
    Ends (programLoop node).run stand fun value later => later.position = tokens.length ∧
      value.children.length ≤ node.children.length + (tokens.length - stand.position) := by
  rw [StatementRule.run]
  change Ends (if stand.isAtEnd then _ else _) stand _
  split
  · rename_i hend
    rw [Stand.isAtEnd_iff] at hend
    exact ends_pure ⟨by omega, by omega⟩
  · rename_i hend
    rw [Stand.isAtEnd_iff] at hend
    have hs := passesFrom_statement movesFrom_block stand (Nat.le_refl _) (by omega)
    refine Ends.bind hs fun child later hp => ?_
    refine (ends_programLoop _ later hp.2).mono fun value final hf => ?_
    have hlength : (node.push child).children.length = node.children.length + 1 := by
      simp [Node.push]
    exact ⟨hf.1, by omega⟩
termination_by tokens.length - stand.position

/-- The procedures of the descent and their loops, with whatever they are called with. -/
inductive Procedure {tokens : List Token} : {α : Type} → Descent tokens α → Prop
  | advance : Procedure advance
  | accept (kind : TokenKind) : Procedure (accept kind)
  | failWith (kind : SyntaxError.Kind) (message : String) : Procedure (failWith kind message)
  | fail (cause : SyntaxError.Cause) : Procedure (fail cause)
  | failPast (cause : SyntaxError.Cause) : Procedure (failPast cause)
  | expect (kind : TokenKind) (cause : SyntaxError.Cause) (node : Node) :
    Procedure (expect kind cause node)
  | literal (kind : NodeKind) (token : Token) : Procedure (literal kind token)
  | stringContents : Procedure stringContents
  | operand (rule : OperandRule) : Procedure rule.run
  | comparisonFrom (left : Node) : Procedure (comparisonFrom left)
  | condition : Procedure condition
  | within (kind : NodeKind) (text : String) {procedure : Descent tokens Node} :
    Procedure procedure → Procedure (within kind text procedure)
  | assignTo (inHeader : Bool) (name : Token) : Procedure (assignTo inHeader name)
  | assignment (inHeader : Bool) : Procedure (assignment inHeader)
  | declaratorSuffix (name : Token) (item : Node) : Procedure (declaratorSuffix name item)
  | declarator : Procedure declarator
  | readTarget (keyword : Token) : Procedure (readTarget keyword)
  | readStatement (keyword : Token) : Procedure (readStatement keyword)
  | writeStatement (keyword : Token) : Procedure (writeStatement keyword)
  | header (noOpening noClosing : SyntaxError.Cause) (node : Node) :
    Procedure (header noOpening noClosing node)
  | statement (rule : StatementRule) : Procedure rule.run
  | program : Procedure program

theorem movesFrom_operandRule (rule : OperandRule) :
    MovesFrom n (rule.run : Descent tokens Node) := by
  cases rule with
  | factor => exact movesFrom_factor movesFrom_expression
  | identifier => exact movesFrom_identifier movesFrom_expression _
  | subscript => exact opens_subscript.movesFrom movesFrom_expression
  | term => exact movesFrom_term movesFrom_expression
  | termFrom => exact movesFrom_termFrom movesFrom_expression _
  | expression => exact movesFrom_expression
  | expressionFrom => exact movesFrom_expressionFrom movesFrom_expression _

theorem movesFrom_programLoop (node : Node) :
    MovesFrom n ((programLoop node).run : Descent tokens Node) :=
  fun stand _ hl => Ends.mono (ends_programLoop node stand hl) fun _ _ hp => by omega

theorem movesFrom_statementRule (rule : StatementRule) :
    MovesFrom n (rule.run : Descent tokens Node) := by
  have hb : MovesFrom n (block.run : Descent tokens Node) := movesFrom_block
  cases rule with
  | statement => exact movesFrom_statement movesFrom_block
  | declaration => exact (opens_declaration block.run _).movesFrom hb
  | declaratorLoop => exact movesFrom_declaratorLoop _
  | ifStatement => exact (opens_ifStatement _).movesFrom hb
  | alternative => exact movesFrom_alternative hb _
  | whileStatement => exact (opens_whileStatement _).movesFrom hb
  | forStatement => exact (opens_forStatement _).movesFrom hb
  | block => exact hb
  | blockLoop => exact movesFrom_blockLoop movesFrom_block _
  | programLoop => exact movesFrom_programLoop _

theorem Procedure.movesFrom {procedure : Descent tokens α} (h : Procedure procedure) :
    MovesFrom n procedure := by
  have hb : MovesFrom n (block.run : Descent tokens Node) := movesFrom_block
  induction h with
  | advance => exact movesFrom_advance
  | accept => exact movesFrom_accept _
  | failWith => exact movesFrom_failWith _ _
  | fail => exact movesFrom_fail _
  | failPast => exact movesFrom_failPast _
  | expect => exact movesFrom_expect _ _ _
  | literal => exact movesFrom_literal _ _
  | stringContents => exact movesFrom_stringContents
  | operand => exact movesFrom_operandRule _
  | comparisonFrom => exact movesFrom_comparisonFrom _
  | condition => exact movesFrom_condition
  | within _ _ _ ih => exact movesFrom_within _ _ ih
  | assignTo => exact movesFrom_assignTo _ _
  | assignment => exact movesFrom_assignment _
  | declaratorSuffix => exact movesFrom_declaratorSuffix _ _
  | declarator => exact movesFrom_declarator
  | readTarget => exact movesFrom_readTarget _
  | readStatement => exact (opens_readStatement block.run _).movesFrom hb
  | writeStatement => exact (opens_writeStatement block.run _).movesFrom hb
  | header => exact movesFrom_header _ _ _
  | statement => exact movesFrom_statementRule _
  | program => exact movesFrom_programLoop _

end Descent
end BlockLang
