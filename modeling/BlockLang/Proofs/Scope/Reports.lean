import BlockLang.Proofs.Failure
import BlockLang.Proofs.Scope.Discipline

/-! # Errors about names

There are two kinds of them: a block declares a name again, or a name is used that no frame
has. The first is reported for declarators alone, and the second for identifiers alone. A
discipline for each kind rules it out.
-/
namespace BlockLang.Scope
open Node RuntimeError

/-- No declarator has a name that its list has declared before. -/
def freshness : Discipline where
  admits names n := n.kind != .declarator || !names.contains n.text
  names n := [n.text]
  inner _ := []
  Fits domains names := ∀ domain ∈ domains.head?, ∀ name, domain name → name ∈ names
  fits_header _ := by simp
  fits_inner _ := by simp
  fits_declare := by
    rintro item domain changed domains known hf ⟨rfl | rfl, -⟩ _ ⟨⟩ name hn
    · exact List.mem_append_left _ (hf _ rfl name hn)
    · by_cases he : name = item.text
      · exact List.mem_append_right _ (List.mem_singleton.2 he)
      · rw [Function.update_of_ne he] at hn
        exact List.mem_append_left _ (hf _ rfl name hn)

/-- Each identifier has a name that has been declared for a variable. -/
def resolution : Discipline where
  admits names n := n.kind != .identifier || names.contains n.text
  names n := if (n.part? .subscript).isNone then [n.text] else []
  inner names := names
  Fits domains names := ∀ name ∈ names, domains.any (· name)
  fits_header h := by simpa using h
  fits_inner h := by simpa using h
  fits_declare := by
    intro item domain changed domains known hf hd name hn
    rw [List.any_cons, Bool.or_eq_true]
    rcases List.mem_append.1 hn with hn | hn
    · have hany := hf name hn
      rw [List.any_cons, Bool.or_eq_true] at hany
      exact hany.imp_left hd.grows
    · split at hn
      · rename_i hs
        rw [List.mem_singleton.1 hn]
        exact .inl (hd.scalar (Option.isNone_iff_eq_none.1 hs))
      · cases hn

/-! ## Names that are looked up -/

/-- The names of all identifiers in a tree are found. -/
def Sees (frames : Frames) (n : Node) : Prop :=
  ∃ names, resolution.passes names n ∧ resolution.Fits frames.domains names

variable {frames : Frames} {n m : Node} {name : String} {line : Nat} {suffix : List Node}

theorem Sees.lookup (h : Sees frames ⟨.identifier, name, line, suffix⟩) :
    (frames.lookup? name).isSome := by
  obtain ⟨names, hp, hf⟩ := h
  have hname : name ∈ names := by simpa [resolution] using Check.admits_of_passes hp
  rw [Frames.isSome_lookup?]
  exact hf name hname

theorem Sees.child (h : Sees frames n) (hk : n.kind ≠ .declarator)
    (hc : ∀ m ∈ n.children, resolution.added m = []) : ∀ m ∈ n.children, Sees frames m := by
  obtain ⟨names, hp, hf⟩ := h
  refine fun m hm => ⟨names, Check.passes_of_mem hp ?_ hc m hm, hf⟩
  rw [Check.within, Check.own, if_neg hk, List.append_nil]
  split <;> rfl

/-- The operands of a node with two children. -/
theorem Sees.operands {kind : NodeKind} {text : String} (h : Sees frames ⟨kind, text, line, [n, m]⟩)
    (hk : kind ≠ .declarator) (hn : resolution.added n = []) (hm : resolution.added m = []) :
    Sees frames n ∧ Sees frames m := by
  have hc := h.child hk (List.forall_mem_cons.2 ⟨hn, List.forall_mem_singleton.2 hm⟩)
  exact ⟨hc _ List.mem_cons_self, hc _ (List.mem_cons_of_mem _ List.mem_cons_self)⟩

/-- What a node has as its only child. -/
theorem Sees.wrapped {kind : NodeKind} {text : String} (h : Sees frames ⟨kind, text, line, [n]⟩)
    (hk : kind ≠ .declarator) (hn : resolution.added n = []) : Sees frames n :=
  h.child hk (List.forall_mem_singleton.2 hn) n List.mem_cons_self

theorem Sees.index {text : String} {place : Nat}
    (h : Sees frames ⟨.identifier, name, line, [⟨.subscript, text, place, [n]⟩]⟩)
    (hn : resolution.added n = []) : Sees frames n :=
  (h.wrapped (by decide) rfl).wrapped (by decide) hn

/-- The children of a statement that declares nothing. -/
theorem Sees.parts (h : Sees frames n) (hs : n.IsStatement) (hk : n.kind ≠ .declaration) :
    ∀ m ∈ n.children, Sees frames m := by
  obtain ⟨names, hp, hf⟩ := h
  exact fun m hm => ⟨names, Check.passes_children hs hk hp m hm, hf⟩

theorem Sees.enter (h : Sees frames n) : Sees frames.enter n := by
  obtain ⟨names, hp, hf⟩ := h
  exact ⟨names, hp, resolution.fits_header hf⟩

theorem Sees.subscript (h : Sees frames ⟨.declarator, name, line, [n]⟩) (hk : n.kind = .subscript) :
    Sees frames n := by
  obtain ⟨names, hp, hf⟩ := h
  have hnames : resolution.names ⟨.declarator, name, line, [n]⟩ = [] := by
    simp [resolution, part?, hk]
  have hpasses := Check.passes_declared hp
  rw [hnames, List.append_nil] at hpasses
  exact ⟨names, hpasses, hf⟩

/-- An initializer sees the variable that it belongs to. -/
theorem Sees.initializer (h : Sees frames ⟨.declarator, name, line, [n]⟩) {domain : Domain}
    {domains : List Domain} (hd : frames.domains = domain :: domains) (entity : Entity) :
    Sees (frames.declare name entity) n := by
  obtain ⟨names, hp, hf⟩ := h
  rw [hd] at hf
  refine ⟨_, Check.passes_declared hp, ?_⟩
  rw [Frames.domains_declare hd]
  exact resolution.fits_declare hf State.declares_added

/-! ## Errors that are ruled out -/

/-- What may be reported, if no block declares a name again or all names are found. -/
def Permits (once found : Prop) : Cause → Prop
  | .redeclared _ => ¬once
  | .undeclared _ => ¬found
  | _ => True

variable {once found : Prop}

theorem permits_of_isOrdinary (cause : Cause) (h : cause.IsOrdinary) :
    Permits once found cause := by
  cases cause with
  | redeclared | undeclared => exact h.elim
  | _ => trivial

theorem Permits.kind_ne_redeclaration {cause : Cause} (h : Permits once found cause) (ho : once) :
    cause.kind ≠ .redeclaration := by
  cases cause with
  | redeclared => exact absurd ho h
  | arithmetic error => cases error <;> nofun
  | _ => nofun

theorem Permits.kind_ne_undeclared {cause : Cause} (h : Permits once found cause) (hf : found) :
    cause.kind ≠ .undeclared := by
  cases cause with
  | undeclared => exact absurd hf h
  | arithmetic error => cases error <;> nofun
  | _ => nofun

/-! ## Evaluation -/

theorem fails_fetch (spot : Spot) : Fails (Permits once found) (frames.fetch line spot) := by
  unfold Frames.fetch
  split
  · exact fails_ok _
  · exact fails_error trivial

theorem fails_variable (h : found → (frames.lookup? name).isSome) :
    Fails (Permits once found) (frames.spotIn name line []) := by
  rw [Frames.spotIn]
  cases hl : frames.lookup? name with
  | none => exact fails_error fun hf => by simpa [hl] using h hf
  | some entity =>
    cases entity with
    | scalar => exact fails_ok _
    | array => exact fails_error trivial

theorem fails_cell (h : found → (frames.lookup? name).isSome) {text : String} {place : Nat}
    (hi : Fails (Permits once found) (frames.evaluate n)) :
    Fails (Permits once found) (frames.spotIn name line [⟨.subscript, text, place, [n]⟩]) := by
  rw [Frames.spotIn]
  cases hl : frames.lookup? name with
  | none => exact fails_error fun hf => by simpa [hl] using h hf
  | some entity =>
    cases entity with
    | scalar => exact fails_error trivial
    | array =>
      apply hi.bind
      intro value
      exact ((Value.fails_checkIndex _ _ _ _).mono permits_of_isOrdinary).bind fun _ => fails_ok _

theorem fails_evaluate (he : n.IsExpression) (hs : found → Sees frames n) :
    Fails (Permits once found) (frames.evaluate n) := by
  induction he with
  | int | real =>
    rw [leaf, Frames.evaluate]
    split
    · exact fails_ok _
    · exact fails_error trivial
  | bool | string =>
    rw [leaf, Frames.evaluate]
    exact fails_ok _
  | scalar =>
    rw [leaf, Frames.evaluate]
    exact (fails_variable fun hf => (hs hf).lookup).bind fun _ => fails_fetch _
  | cell _ hi ih =>
    have hindex := ih fun hf => (hs hf).index (Check.added_of_isExpression hi)
    rw [Frames.evaluate]
    exact (fails_cell (fun hf => (hs hf).lookup) hindex).bind fun _ => fails_fetch _
  | arithmetic hl hr ihl ihr =>
    have hoperands (hf : found) := (hs hf).operands (by decide) (Check.added_of_isExpression hl)
      (Check.added_of_isExpression hr)
    rw [Frames.evaluate.eq_def]
    simp only [Operator.ofSpelling?_spelling]
    exact (ihl fun hf => (hoperands hf).1).bind fun _ => (ihr fun hf => (hoperands hf).2).bind
      fun _ => (Value.fails_arithmetic _ _ _ _ _ _).mono permits_of_isOrdinary

theorem fails_evaluate_condition (hc : n.IsCondition) (hs : found → Sees frames n) :
    Fails (Permits once found) (frames.evaluate n) := by
  cases hc with
  | plain he => exact fails_evaluate he hs
  | @comparison text line left right _ hl hr =>
    have hoperands (hf : found) := (hs hf).operands (by decide) (Check.added_of_isExpression hl)
      (Check.added_of_isExpression hr)
    have hdecimal (line : Nat) (value : Value) : Fails (Permits once found) (value.decimal line) :=
      (Value.fails_decimal line value).mono permits_of_isOrdinary
    rw [Frames.evaluate]
    apply (fails_evaluate hl fun hf => (hoperands hf).1).bind
    intro _
    apply (hdecimal _ _).bind
    intro l
    apply (fails_evaluate hr fun hf => (hoperands hf).2).bind
    intro _
    apply (hdecimal _ _).bind
    intro r
    split
    · exact fails_ok _
    · exact fails_error trivial

theorem fails_spotOf (ht : n.IsTarget) (hs : found → Sees frames n) :
    Fails (Permits once found) (frames.spotOf n) := by
  obtain ⟨ht⟩ := ht
  cases ht with
  | scalar => exact fails_variable fun hf => (hs hf).lookup
  | cell _ hi =>
    refine fails_cell (fun hf => (hs hf).lookup) (fails_evaluate hi fun hf => ?_)
    exact (hs hf).index (Check.added_of_isExpression hi)

theorem fails_evaluateWithin {kind : NodeKind} {text : String} (hw : Wraps kind text IsCondition n)
    (hk : kind ≠ .declarator) (hs : found → Sees frames n) :
    Fails (Permits once found) (frames.evaluateWithin n) := by
  obtain ⟨line, inner, rfl, hi⟩ := hw
  have hne := Store.isError_of_isCondition hi
  have hc : content? ⟨kind, text, line, [inner]⟩ = some inner := by simp [content?, hne]
  rw [Frames.evaluateWithin, hc]
  apply fails_evaluate_condition hi
  intro hf
  exact (hs hf).wrapped hk (Check.added_of_isCondition hi)

/-! ## Statements -/

namespace State

variable {state next : State}

theorem declares_eq_false {names : List String} (hp : freshness.passes names n)
    (hk : n.kind = .declarator) (hf : freshness.Fits frames.domains names) :
    frames.declares n.text = false := by
  have hn : n.text ∉ names := by simpa [freshness, hk] using Check.admits_of_passes hp
  rw [Frames.declares_eq]
  cases hd : frames.domains.head? with
  | none => rfl
  | some domain => exact Bool.eq_false_iff.2 fun ht => hn (hf domain hd n.text ht)

def Clear (once found : Prop) (state : State) : Prop :=
  ∀ error ∈ state.errors.toList, Permits once found error.cause

theorem Clear.congr (h : state.Clear once found) (he : next.errors = state.errors) :
    next.Clear once found := by
  rwa [Clear, he]

theorem Clear.report (h : state.Clear once found) {error : RuntimeError}
    (he : Permits once found error.cause) : (state.report error).Clear once found := by
  rw [Clear, State.report, Array.toList_push, List.forall_mem_append, List.forall_mem_singleton]
  exact ⟨h, he⟩

theorem Clear.settle (h : state.Clear once found) {result : Except RuntimeError State}
    (hr : Fails (Permits once found) result)
    (hk : ∀ next, result = .ok next → next.errors = state.errors) :
    (state.settle result).Clear once found := by
  cases result with
  | ok next => exact h.congr (hk next rfl)
  | error error => exact h.report (hr error rfl)

theorem fails_putAdapted (spot : Spot) (value : Value) :
    Fails (Permits once found) (state.putAdapted spot line value) := by
  unfold putAdapted
  split
  · exact fails_ok _
  · exact fails_error trivial

theorem fails_assign (ha : n.IsAssignment) (hs : found → Sees state.frames n) :
    Fails (Permits once found) (state.assign n) := by
  obtain ⟨ht, hsource⟩ := ha
  have hoperands (hf : found) := (hs hf).operands (by decide) (Check.added_of_isTarget ht)
    (Check.added_of_isCondition hsource)
  rw [assign]
  apply (fails_spotOf ht fun hf => (hoperands hf).1).bind
  intro spot
  apply (fails_evaluate_condition hsource fun hf => (hoperands hf).2).bind
  intro value
  exact fails_putAdapted spot value

theorem Clear.assign (h : state.Clear once found) (ha : n.IsAssignment)
    (hs : found → Sees state.frames n) :
    (state.settle (state.assign n)).Clear once found := by
  apply h.settle (fails_assign ha hs)
  intro next hn
  obtain ⟨spot, value, rfl⟩ := assign_eq_ok hn
  rfl

theorem Clear.write (h : state.Clear once found) {value : Node} (hv : value.IsExpression)
    (hs : found → Sees state.frames ⟨.write, "write", line, [value]⟩) :
    (state.write ⟨.write, "write", line, [value]⟩).Clear once found := by
  have hfails : Fails (Permits once found) (state.frames.evaluateWithin _) :=
    fails_evaluateWithin ⟨line, value, rfl, .plain hv⟩ (by decide) hs
  unfold State.write
  split
  · exact h
  · rename_i error he
    exact h.report (hfails error he)

theorem Clear.read (h : state.Clear once found) {target : Node} (ht : target.IsTarget)
    (hs : found → Sees state.frames ⟨.read, "read", line, [target]⟩) :
    (state.read ⟨.read, "read", line, [target]⟩).Clear once found := by
  have hc : content? ⟨.read, "read", line, [target]⟩ = some target := by
    obtain ⟨_⟩ := ht
    rfl
  have hfails : Fails (Permits once found) (state.frames.spotOf target) :=
    fails_spotOf ht fun hf => (hs hf).wrapped (by decide) (Check.added_of_isTarget ht)
  rw [State.read.eq_def, hc]
  dsimp only
  split
  · rename_i error he
    exact h.report (hfails error he)
  · split
    · exact h
    · exact Clear.report h trivial

theorem Clear.test (h : state.Clear once found) (hw : Wraps .condition "" IsCondition n)
    (hs : found → Sees state.frames n) : (state.test n).2.Clear once found := by
  have hfails : Fails (Permits once found) (state.frames.evaluateWithin n) :=
    fails_evaluateWithin hw (by decide) hs
  unfold State.test
  split
  · exact h
  · exact h.report trivial
  · rename_i error he
    exact h.report (hfails error he)

theorem Clear.declareArray (h : state.Clear once found) {kind : Kind} {subscript : Node}
    (hw : Wraps .subscript "[]" IsExpression subscript)
    (hs : found → Sees state.frames subscript) :
    (state.settle (state.declareArray kind n subscript)).Clear once found := by
  refine h.settle ?_ fun next hn => ?_
  · apply (fails_evaluateWithin (hw.mono fun _ => .plain) (by decide) hs).bind
    intro value
    exact ((Value.fails_checkSize _ _).mono permits_of_isOrdinary).bind fun size => fails_ok _
  · obtain ⟨entity, rfl⟩ := declareArray_eq_ok hn
    rfl

theorem Clear.putInitial (h : state.Clear once found) {kind : Kind} {initializer : Node}
    (hw : Wraps .initializer "=" IsCondition initializer)
    (hs : found → Sees state.frames initializer) :
    (state.settle (state.putInitial kind n initializer)).Clear once found := by
  refine h.settle ?_ fun next hn => ?_
  · exact (fails_evaluateWithin hw (by decide) hs).bind fun value => fails_putAdapted _ value
  · obtain ⟨spot, value, rfl⟩ := putInitial_eq_ok hn
    rfl

/-- A declarator reports its name only if the innermost frame has it. -/
theorem Clear.declare (h : state.Clear once found) {kind : Kind} (hd : n.IsDeclarator)
    {domain : Domain} {domains : List Domain} (hdomains : state.frames.domains = domain :: domains)
    (ho : once → state.frames.declares n.text = false) (hs : found → Sees state.frames n) :
    (state.declare kind n).Clear once found := by
  obtain @⟨name, line, subscript, initializer, hname, hsubscript, hinitializer⟩ := hd
  obtain ⟨hsub, hinit⟩ := declarator_parts hsubscript hinitializer
  rw [State.declare, hsub, hinit]
  split
  · rename_i hdeclares
    exact h.report fun hone => by simp [ho hone] at hdeclares
  · cases subscript with
    | some subscript =>
      cases initializer with
      | some initializer => exact h.report trivial
      | none =>
        refine h.declareArray (hsubscript _ rfl) fun hf => (hs hf).subscript ?_
        obtain ⟨_, _, rfl, -⟩ := hsubscript _ rfl
        rfl
    | none =>
      cases initializer with
      | none => exact h
      | some initializer =>
        have hbind : (state.bind name (.scalar kind none)).Clear once found := h
        exact hbind.putInitial (hinitializer _ rfl) fun hf => (hs hf).initializer hdomains _

/-! ## Tasks -/

theorem Clear.branch (h : state.Clear once found) (block : Option Node) :
    (state.branch block).1.Clear once found := by
  cases block <;> exact h

theorem Clear.conditional (h : state.Clear once found) {condition : Node}
    (hc : n.part? .condition = some condition) (hw : Wraps .condition "" IsCondition condition)
    (hs : found → Sees state.frames condition) : (state.conditional n).1.Clear once found := by
  rw [State.conditional, hc]
  exact (h.test hw hs).branch _

theorem Clear.loop (h : state.Clear once found) {condition : Node}
    (hw : Wraps .condition "" IsCondition condition) (hs : found → Sees state.frames condition)
    (body : Node) (again : Task) : (state.loop condition body again).1.Clear once found := by
  have htested : (state.test condition).2.Clear once found := h.test hw hs
  rw [State.loop]
  rcases htest : state.test condition with ⟨holds, tested⟩
  rw [htest] at htested
  cases holds <;> exact htested

theorem Clear.beginFor (h : state.Clear once found) {init condition step body : Node}
    (hi : Wraps .init "" IsAssignment init) (hstep : Wraps .step "" IsAssignment step)
    (hs : found → Sees state.frames init) :
    (state.beginFor init condition step body).1.Clear once found := by
  obtain ⟨next, hnext, -⟩ := content?_of_wraps hstep isError_of_isAssignment
  obtain ⟨line, first, rfl, ha⟩ := hi
  have hfirst : content? ⟨.init, "", line, [first]⟩ = some first := by
    simp [content?, isError_of_isAssignment first ha]
  have hfails : Fails (Permits once found) (state.assign first) :=
    fails_assign ha fun hf => (hs hf).wrapped (by decide) (Check.added_of_isAssignment ha)
  rw [State.beginFor, hfirst, hnext]
  dsimp only
  cases hr : state.assign first with
  | error error => exact h.report (hfails error hr)
  | ok begun =>
    obtain ⟨spot, value, rfl⟩ := assign_eq_ok hr
    exact h

theorem Clear.execute (h : state.Clear once found) (hn : n.IsStatement)
    (hs : found → Sees state.frames n) : (state.execute n).1.Clear once found := by
  have hparts (hk : n.kind ≠ .declaration) (hf : found) := (hs hf).parts hn hk
  cases hn with
  | @declaration kind =>
    simp only [State.execute, Kind.ofName?_name]
    exact h
  | assignment ha =>
    have hassign := h.assign ha hs
    cases ha
    exact hassign
  | read ht => exact h.read ht hs
  | write hv => exact h.write hv hs
  | conditional ht | alternative ht =>
    obtain ⟨line, test, rfl, hw⟩ := ht
    exact h.conditional rfl ⟨line, test, rfl, hw⟩ fun hf =>
      hparts (by simp) hf _ List.mem_cons_self
  | whileLoop ht =>
    obtain ⟨_, _, rfl, -⟩ := ht
    exact h
  | forLoop hi ht hstep =>
    obtain ⟨_, _, rfl, hi⟩ := hi
    obtain ⟨_, _, rfl, -⟩ := ht
    obtain ⟨_, _, rfl, hstep⟩ := hstep
    have hentered : state.enter.Clear once found := h
    exact hentered.beginFor ⟨_, _, rfl, hi⟩ ⟨_, _, rfl, hstep⟩ fun hf =>
      (hparts (by simp) hf _ List.mem_cons_self).enter

/-- A task reports only what is permitted. -/
theorem Clear.perform (h : state.Clear once found) {task : Task} {tasks : List Task}
    (ht : task.IsShaped) {domain : Domain} {domains : List Domain}
    (hdomains : state.frames.domains = domain :: domains)
    (ho : once → freshness.Holds ⟨state, task :: tasks⟩)
    (hs : found → resolution.Holds ⟨state, task :: tasks⟩) :
    (state.perform task).1.Clear once found := by
  have hsees (hl : task ≠ .leave) (hf : found) := (hs hf).accepts hl
  cases task with
  | execute stmt => exact h.execute ht (hsees nofun)
  | skip stmt => exact ht.elim
  | declare kind item =>
    refine h.declare ht hdomains (fun hone => ?_) (hsees nofun)
    obtain ⟨names, hp, hf⟩ := (ho hone).accepts nofun
    exact declares_eq_false hp (by cases ht; rfl) hf
  | leave => exact h
  | whileLoop condition body =>
    exact h.loop ht.1 (fun hf => (hsees nofun hf).imp fun _ hp => ⟨hp.1.1, hp.2⟩) _ _
  | forLoop condition step body =>
    exact h.loop ht.1 (fun hf => (hsees nofun hf).imp fun _ hp => ⟨hp.1.1, hp.2⟩) _ _
  | forStep condition step body =>
    have hfails : Fails (Permits once found) (state.assign step) :=
      fails_assign ht.2.1 fun hf => (hsees nofun hf).imp fun _ hp => ⟨hp.1.2.1, hp.2⟩
    rw [State.perform]
    cases hr : state.assign step with
    | error error => exact h.report (hfails error hr)
    | ok stepped =>
      obtain ⟨spot, value, rfl⟩ := assign_eq_ok hr
      exact h

end State
end BlockLang.Scope
