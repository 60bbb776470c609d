import BlockLang.Proofs.Scope.Check
import BlockLang.Proofs.Scope.Domains

/-! # Disciplines of names

A discipline is a check whose lists fit the domains of the frames. If a program passes the
check, they fit at each moment of its run, however often its bodies are run: each task
passes with the list that there will be when its turn comes, and the end of a body
brings back the list of the block around it.
-/
namespace BlockLang.Scope
open Node

/-- A check whose lists fit the domains of the frames. -/
structure Discipline extends Check where
  Fits : List Domain → List String → Prop
  fits_header {domains : List Domain} {names : List String} :
    Fits domains names → Fits ((fun _ => false) :: domains) names
  fits_inner {domains : List Domain} {names : List String} :
    Fits domains names → Fits ((fun _ => false) :: domains) (inner names)
  fits_declare {item : Node} {domain changed : Domain} {domains : List Domain}
    {known : List String} : Fits (domain :: domains) known →
    State.Declares item domain changed → Fits (changed :: domains) (known ++ names item)

namespace Discipline

variable (d : Discipline)

/-- The list of each open block fits the domains from its frame outwards. -/
inductive Fitting : List Domain → List (List String) → Prop
  | nil : Fitting [] []
  | cons {domain : Domain} {domains : List Domain} {names : List String}
    {outer : List (List String)} : d.Fits (domain :: domains) names → Fitting domains outer →
    Fitting (domain :: domains) (names :: outer)

/-- No statement is skipped, because what it declares may be counted on. -/
def Accepts (names : List String) : Task → Prop
  | .execute stmt => d.passes names stmt
  | .skip _ => False
  | .declare _ item => d.passes names item
  | .leave => False
  | .whileLoop condition body => d.passes names condition ∧ d.passes names body
  | .forLoop condition step body | .forStep condition step body =>
    d.passes names condition ∧ d.passes names step ∧ d.passes names body

def adds : Task → List String
  | .execute n | .declare _ n => d.added n
  | _ => []

/-- Each task passes with the names that it will have when its turn comes. -/
inductive Passes : List (List String) → List Task → Prop
  | nil {stack : List (List String)} : Passes stack []
  | leave {names other : List String} {outer : List (List String)} {tasks : List Task} :
    Passes (other :: outer) tasks → Passes (names :: other :: outer) (.leave :: tasks)
  | cons {names : List String} {outer : List (List String)} {task : Task} {tasks : List Task} :
    d.Accepts names task → Passes ((names ++ d.adds task) :: outer) tasks →
    Passes (names :: outer) (task :: tasks)

/-- Tasks that need these lists may follow a step and the tasks that follow from it. -/
def Ready (stack : List (List String)) (step : State × List Task) : Prop :=
  ∀ tasks, d.Passes stack tasks →
    ∃ changed, d.Fitting step.1.frames.domains changed ∧ d.Passes changed (step.2 ++ tasks)

variable {d} {names other : List String} {outer : List (List String)} {state next : State}
  {tasks : List Task} {nodes : List Node} {n : Node}

theorem passes_map {f : Node → Task} (hf : ∀ names n, d.passes names n → d.Accepts names (f n))
    (ha : ∀ n, d.adds (f n) = d.added n) (h : d.passInOrder names nodes)
    (ht : d.Passes ((names ++ nodes.flatMap d.added) :: outer) tasks) :
    d.Passes (names :: outer) (nodes.map f ++ tasks) := by
  induction nodes generalizing names with
  | nil => simpa using ht
  | cons node nodes ih =>
    rw [Check.passInOrder_cons, Bool.and_eq_true] at h
    refine .cons (hf _ _ h.1) (ih (by rw [ha]; exact h.2) ?_)
    rwa [ha, List.append_assoc]

/-- Whatever the statements of a body add is gone when it ends. -/
theorem passes_body (hk : n.kind = .block) (h : d.passes names n)
    (ht : d.Passes (other :: outer) tasks) :
    d.Passes (d.inner names :: other :: outer) (Task.body n ++ tasks) := by
  have hw : d.within names n = d.inner names := if_pos (.inr hk)
  rw [Task.body, List.append_assoc]
  exact passes_map (fun _ _ h => h) (fun _ => rfl) (hw ▸ Check.passInOrder_of_passes h) (.leave ht)

theorem Ready.nil {stack : List (List String)} (h : d.Fitting state.frames.domains stack) :
    d.Ready stack (state, []) :=
  fun _ ht => ⟨stack, h, ht⟩

theorem Fitting.fits {domains : List Domain} (h : d.Fitting domains (names :: outer)) :
    d.Fits domains names := by
  cases h
  assumption

theorem Fitting.enter (h : d.Fitting state.frames.domains (names :: outer)) :
    d.Fitting state.enter.frames.domains (d.inner names :: names :: outer) :=
  .cons (d.fits_inner h.fits) h

theorem Fitting.header (h : d.Fitting state.frames.domains (names :: outer)) :
    d.Fitting state.enter.frames.domains (names :: names :: outer) :=
  .cons (d.fits_header h.fits) h

theorem Fitting.leave {frames : Frames} (h : d.Fitting frames.domains (names :: other :: outer)) :
    d.Fitting frames.leave.domains (other :: outer) := by
  match frames, h with
  | _ :: _ :: _, .cons _ h => exact h

theorem ready_runBody (h : d.Fitting state.frames.domains (names :: outer)) (hk : n.kind = .block)
    (hb : d.passes names n) {again : List Task}
    (ha : ∀ tasks, d.Passes (names :: outer) tasks → d.Passes (names :: outer) (again ++ tasks)) :
    d.Ready (names :: outer) (state.runBody n again) := by
  intro tasks ht
  refine ⟨_, h.enter, ?_⟩
  rw [State.runBody, List.append_assoc]
  exact passes_body hk hb (ha tasks ht)

theorem ready_branch (h : d.Fitting state.frames.domains (names :: outer)) {block : Option Node}
    (hb : ∀ n ∈ block, n.kind = .block ∧ d.passes names n) :
    d.Ready (names :: outer) (state.branch block) := by
  cases block with
  | none => exact .nil h
  | some n => exact ready_runBody h (hb n rfl).1 (hb n rfl).2 fun _ ht => ht

theorem ready_loop (h : d.Fitting state.frames.domains (names :: outer)) {condition : Node}
    (hk : n.kind = .block) (hb : d.passes names n) {again : Task}
    (ha : d.Accepts names again) (hadds : d.adds again = []) :
    d.Ready (names :: outer) (state.loop condition n again) := by
  have htested : d.Fitting (state.test condition).2.frames.domains (names :: outer) := by
    rwa [State.domains_test]
  rw [State.loop]
  rcases htest : state.test condition with ⟨holds, tested⟩
  rw [htest] at htested
  cases holds with
  | false => exact .nil htested
  | true =>
    refine ready_runBody htested hk hb fun tasks ht => .cons ha ?_
    rwa [hadds, List.append_nil]

/-! ## Steps -/

theorem mem_of_part? {m : Node} {kind : NodeKind} (h : m ∈ n.part? kind) :
    m ∈ n.children ∧ m.kind = kind :=
  ⟨List.mem_of_find?_eq_some h, by simpa using List.find?_some h⟩

theorem ready_conditional (h : d.Fitting state.frames.domains (names :: outer))
    {condition : Node} (hc : n.part? .condition = some condition)
    (hb : ∀ m ∈ n.part? .block, d.passes names m)
    (he : ∀ m ∈ (n.part? .alternative).bind (·.part? .block), d.passes names m) :
    d.Ready (names :: outer) (state.conditional n) := by
  have htested : d.Fitting (state.test condition).2.frames.domains (names :: outer) := by
    rwa [State.domains_test]
  rw [State.conditional, hc]
  dsimp only
  rcases htest : state.test condition with ⟨holds, tested⟩
  rw [htest] at htested
  refine ready_branch htested ?_
  cases holds with
  | true => exact fun m hm => ⟨(mem_of_part? hm).2, hb m hm⟩
  | false =>
    intro m hm
    obtain ⟨other, -, hother⟩ := Option.bind_eq_some_iff.1 hm
    exact ⟨(mem_of_part? hother).2, he m hm⟩

theorem ready_beginFor (h : d.Fitting state.frames.domains (names :: outer))
    {init condition step body next : Node} (hs : step.content? = some next)
    (ha : d.Accepts names (.forLoop condition next body)) :
    d.Ready (names :: outer) (state.beginFor init condition step body) := by
  rw [State.beginFor, hs]
  cases init.content? with
  | none => exact .nil h
  | some first =>
    dsimp only
    cases hr : state.assign first with
    | error error => exact .nil h
    | ok begun =>
      intro tasks ht
      exact ⟨_, State.domains_assign hr ▸ h, .cons ha (by simpa [adds] using ht)⟩

/-- The header has a frame of its own, to which it adds nothing. -/
theorem ready_forLoop (h : d.Fitting state.frames.domains (names :: outer))
    {init condition step body next : Node} (hi : n.part? .init = some init)
    (hc : n.part? .condition = some condition) (hs : n.part? .step = some step)
    (hb : n.part? .block = some body) (hnext : step.content? = some next)
    (ha : d.Accepts names (.forLoop condition next body)) :
    d.Ready (names :: outer) (state.forLoop n) := by
  rw [State.forLoop, hi, hc, hs, hb]
  intro tasks ht
  obtain ⟨stack, hf, hp⟩ := ready_beginFor h.header hnext ha (.leave :: tasks) (.leave ht)
  refine ⟨stack, hf, ?_⟩
  rwa [List.append_assoc]

theorem ready_declaration (h : d.Fitting state.frames.domains (names :: outer)) {kind : Kind}
    {line : Nat} (hitems : ∀ item ∈ nodes, item.IsDeclarator)
    (hp : d.passes names ⟨.declaration, kind.name, line, nodes⟩) :
    d.Ready ((names ++ nodes.flatMap d.own) :: outer) (state, nodes.map (.declare kind)) := by
  intro tasks ht
  have hw : d.within names ⟨.declaration, kind.name, line, nodes⟩ = names := by
    simp [Check.within, Check.own]
  refine ⟨_, h, passes_map (fun _ _ h => h) (fun _ => rfl)
    (hw ▸ Check.passInOrder_of_passes hp) ?_⟩
  rwa [Check.flatMap_added hitems]

/-- A statement that declares nothing is followed by what passes in its place. -/
theorem ready_other (h : d.Fitting state.frames.domains (names :: outer))
    (hs : n.IsStatement) (hk : n.kind ≠ .declaration) (hp : d.passes names n) :
    d.Ready (names :: outer) (state.execute n) := by
  have hc := Check.passes_children hs hk hp
  cases hs with
  | declaration => exact absurd rfl hk
  | assignment ha =>
    have hdomains : (state.settle (state.assign n)).frames.domains = state.frames.domains :=
      State.domains_settle fun _ => State.domains_assign
    cases ha
    exact .nil (hdomains ▸ h)
  | read => exact .nil (by rwa [State.domains_read])
  | write => exact .nil (by rwa [State.domains_write])
  | conditional ht =>
    obtain ⟨line, test, rfl, -⟩ := ht
    rw [List.forall_mem_cons, List.forall_mem_singleton] at hc
    refine ready_conditional h rfl ?_ nofun
    rintro _ ⟨⟩
    exact hc.2
  | alternative ht =>
    obtain ⟨line, test, rfl, -⟩ := ht
    rw [List.forall_mem_cons, List.forall_mem_cons, List.forall_mem_singleton] at hc
    refine ready_conditional h rfl ?_ ?_
    · rintro _ ⟨⟩
      exact hc.2.1
    · rintro _ ⟨⟩
      exact Check.passes_wrapped hc.2.2 (by decide) rfl
  | whileLoop ht =>
    obtain ⟨line, test, rfl, -⟩ := ht
    rw [List.forall_mem_cons, List.forall_mem_singleton] at hc
    exact fun tasks hp => ⟨_, h, .cons hc (by simpa [adds] using hp)⟩
  | forLoop hi ht hstep =>
    obtain ⟨_, _, rfl, -⟩ := hi
    obtain ⟨_, _, rfl, -⟩ := ht
    obtain ⟨_, next, rfl, hnext⟩ := hstep
    rw [List.forall_mem_cons, List.forall_mem_cons, List.forall_mem_cons,
      List.forall_mem_singleton] at hc
    have hpass : d.passes names next :=
      Check.passes_wrapped hc.2.2.1 (by decide) (Check.added_of_isAssignment hnext)
    exact ready_forLoop h rfl rfl rfl rfl
      (by simp [content?, isError_of_isAssignment next hnext]) ⟨hc.2.1, hpass, hc.2.2.2⟩

/-- A statement is followed by what passes after it. -/
theorem ready_execute (h : d.Fitting state.frames.domains (names :: outer))
    (hs : n.IsStatement) (hp : d.passes names n) :
    d.Ready ((names ++ d.added n) :: outer) (state.execute n) := by
  by_cases hk : n.kind = .declaration
  · cases hs with
    | @declaration kind line items _ hitems =>
      simp only [State.execute, Kind.ofName?_name]
      exact ready_declaration h hitems hp
    | assignment ha =>
      cases ha
      cases hk
    | _ => cases hk
  · have hadded : d.added n = [] := Check.added_of_isStatement hs hk
    rw [hadded, List.append_nil]
    exact ready_other h hs hk hp

/-- What a declarator adds to the domain, it adds to the list. -/
theorem ready_declare (h : d.Fitting state.frames.domains (names :: outer)) {kind : Kind}
    (hn : n.IsDeclarator) :
    d.Ready ((names ++ d.added n) :: outer) (state.declare kind n, []) := by
  generalize hdomains : state.frames.domains = domains at h
  cases h with
  | cons hfits houter =>
    refine .nil ?_
    obtain ⟨changed, hchanged, hdeclares⟩ := State.domains_declare hdomains
    rw [hchanged, Check.added_of_isDeclarator hn]
    exact .cons (d.fits_declare hfits hdeclares) houter

/-- A task is followed by what passes after it. -/
theorem ready_perform (h : d.Fitting state.frames.domains (names :: outer)) {task : Task}
    (ht : task.IsShaped) (ha : d.Accepts names task) :
    d.Ready ((names ++ d.adds task) :: outer) (state.perform task) := by
  cases task with
  | execute stmt => exact ready_execute h ht ha
  | skip stmt => exact ht.elim
  | declare kind item => exact ready_declare h ht
  | leave => exact ha.elim
  | whileLoop condition body =>
    change d.Ready ((names ++ []) :: outer) _
    rw [List.append_nil]
    exact ready_loop h ht.2.kind_eq ha.2 ha rfl
  | forLoop condition step body =>
    change d.Ready ((names ++ []) :: outer) _
    rw [List.append_nil]
    exact ready_loop h ht.2.2.kind_eq ha.2.2 ha rfl
  | forStep condition step body =>
    change d.Ready ((names ++ []) :: outer) _
    rw [List.append_nil, State.perform]
    cases hr : state.assign step with
    | error error => exact .nil h
    | ok stepped =>
      intro tasks hp
      exact ⟨_, State.domains_assign hr ▸ h, .cons ha (by simpa [adds] using hp)⟩

/-! ## Runs -/

/-- At each moment the lists fit the frames, and the tasks that are left pass. -/
def Holds (machine : Machine) : Prop :=
  ∃ stack, d.Fitting machine.state.frames.domains stack ∧ d.Passes stack machine.tasks

theorem Holds.accepts {task : Task} (h : d.Holds ⟨state, task :: tasks⟩) (hl : task ≠ .leave) :
    ∃ names, d.Accepts names task ∧ d.Fits state.frames.domains names := by
  obtain ⟨stack, hf, hp⟩ := h
  cases hp with
  | leave => exact absurd rfl hl
  | cons ha _ => exact ⟨_, ha, hf.fits⟩

/-- What a step preserves. -/
theorem Holds.perform {task : Task} (h : d.Holds ⟨state, task :: tasks⟩)
    (ht : (∃ stmt, task = .skip stmt) ∨ task.IsShaped) :
    d.Holds ⟨(state.perform task).1, (state.perform task).2 ++ tasks⟩ := by
  obtain ⟨stack, hf, hp⟩ := h
  cases hp with
  | @leave names other outer _ htasks =>
    exact ⟨other :: outer, hf.leave, htasks⟩
  | cons ha htasks =>
    obtain ⟨stmt, rfl⟩ | ht := ht
    · exact ha.elim
    · exact ready_perform hf ht ha tasks htasks

end Discipline
end BlockLang.Scope
