import Lookahead.Proofs.Arena
import Lookahead.Proofs.ParserAnswer

/-!
The stack and the tree of a parse, after any number of steps and over any stream. A
step closes the node on top of the stack and puts its children in its place. So the
stack holds the open nodes, the matched terminals and the stack together are the
frontier of the tree, and the counts are those of the closed nodes.
-/
namespace Lookahead

namespace SizedList

variable {α : Type} {l tail : SizedList α} {a : α}

theorem toList_of_uncons?_some (h : l.uncons? = some (a, tail)) :
    l.toList = a :: tail.toList := by
  obtain ⟨toList, size, size_eq⟩ := l
  cases toList with
  | nil => cases h
  | cons b rest =>
      cases h
      rfl

theorem toList_of_uncons?_none (h : l.uncons? = none) : l.toList = [] := by
  obtain ⟨toList, size, size_eq⟩ := l
  cases toList with
  | nil => rfl
  | cons b rest => cases h

end SizedList

namespace Parse

variable {τ : Type} {g : Grammar} {preferences : SyntaxPreferences} {symbol : String}
  {p q r : Parse τ} {id : Nat} {order : List Nat}

/-- The parse after its top node was taken from the stack, wherever its stream stands. -/
structure Popped (p : Parse τ) (id : Nat) (r : Parse τ) : Prop where
  tree : r.tree = p.tree
  metrics : r.metrics = p.metrics
  stack : p.stack.toList = id :: r.stack.toList

/-- One step on: a node is closed, and the children of the closed node take its place. -/
structure Advances (g : Grammar) (p q : Parse τ) (id : Nat) (n : Node) (rhs : List String)
    (n' : Node) : Prop where
  closes : p.tree.Closes g id n rhs n' q.tree
  stack : ∃ rest, p.stack.toList = id :: rest ∧ q.stack.toList = n'.children ++ rest
  expansions : q.metrics.expansions = p.metrics.expansions + n'.isExpanded.toNat
  epsilonExpansions :
    q.metrics.epsilonExpansions = p.metrics.epsilonExpansions + n'.isEpsilon.toNat
  terminalsMatched : q.metrics.terminalsMatched = p.metrics.terminalsMatched + n'.isMatched.toNat

theorem Popped.expand {label : String} (h : p.Popped id r)
    (hnode : p.tree.get? id = some (.fresh label true)) (rhs : List String) :
    Advances g p (r.expand g id rhs) id (.fresh label true) rhs
      ⟨label, .nonterminal (some (rhs, List.range' p.tree.size rhs.length))⟩ := by
  constructor
  · simp only [Parse.expand, h.tree]
    exact SyntaxTree.closes_setExpansion g hnode rhs
  · refine ⟨r.stack.toList, h.stack, ?_⟩
    simp only [Parse.expand, h.tree]
    rfl
  · simp only [Parse.expand, h.metrics]
    rfl
  · simp only [Parse.expand, h.metrics]
    cases rhs <;> rfl
  · simp only [Parse.expand, h.metrics]
    rfl

theorem Popped.accept {label : String} (h : p.Popped id r)
    (hnode : p.tree.get? id = some (.fresh label false)) (t : Token) :
    Advances g p (r.accept id t) id (.fresh label false) []
      ⟨label, .terminal (some (t.value, t.span))⟩ := by
  constructor
  · simp only [Parse.accept, h.tree]
    exact SyntaxTree.closes_setMatched g hnode t.value t.span
  · exact ⟨r.stack.toList, h.stack, rfl⟩
  · simp only [Parse.accept, h.metrics]
    rfl
  · simp only [Parse.accept, h.metrics]
    rfl
  · simp only [Parse.accept, h.metrics]
    rfl

/-- The parse stands as it should after the given nodes were matched, in that order. -/
structure Sound (g : Grammar) (symbol : String) (order : List Nat) (p : Parse τ) : Prop where
  tree : p.tree.WellFormed g symbol
  nodup : p.stack.toList.Nodup
  stack : ∀ id, id ∈ p.stack.toList ↔ (p.tree.get? id).any Node.isOpen = true
  matched : ∀ id, id ∈ order ↔ (p.tree.get? id).any Node.isMatched = true
  frontier : p.tree.frontier = order ++ p.stack.toList
  expansions : p.metrics.expansions = p.tree.nodes.toList.countP Node.isExpanded
  epsilonExpansions : p.metrics.epsilonExpansions = p.tree.nodes.toList.countP Node.isEpsilon
  terminalsMatched : p.metrics.terminalsMatched = p.tree.nodes.toList.countP Node.isMatched

theorem sound_start (g : Grammar) (symbol : String) (stream : τ) :
    (start g symbol stream).Sound g symbol [] := by
  have hnodes : (start g symbol stream).tree.nodes.toList =
      [.fresh symbol (g.isNonterminal symbol)] := rfl
  have hroot : (start g symbol stream).tree.get? SyntaxTree.root =
      some (.fresh symbol (g.isNonterminal symbol)) := rfl
  have horder : (start g symbol stream).tree.preOrder = [SyntaxTree.root] := rfl
  have honly : ∀ {id n}, (start g symbol stream).tree.get? id = some n → id = SyntaxTree.root :=
    fun h => Nat.lt_one_iff.mp (SyntaxTree.lt_size_of_get? h)
  refine ⟨⟨?_, ?_, ?_, ?_, ?_⟩, ?_, ?_, ?_, ?_, ?_, ?_, ?_⟩
  · rw [hroot]
    rfl
  · rw [hnodes]
    simp [start, SyntaxTree.ofRoot, SyntaxTree.size]
  · intro id n hn
    obtain rfl := honly hn
    rw [hroot] at hn
    cases hn
    exact .fresh g _ _ symbol
  · rw [horder]
    refine SyntaxTree.depthFirst_leaves fun id hid => ?_
    rw [List.mem_singleton.mp hid, SyntaxTree.childrenOf, hroot]
    exact Node.children_fresh _ _
  · rw [horder]
    exact .refl _
  · exact List.nodup_singleton _
  · intro id
    constructor
    · intro hmem
      rw [List.mem_singleton.mp hmem, hroot]
      simp
    · intro hany
      obtain ⟨n, hn, -⟩ := (Option.any_eq_true _ _).mp hany
      exact List.mem_singleton.mpr (honly hn)
  · intro id
    cases hget : (start g symbol stream).tree.get? id with
    | none => simp
    | some n =>
        obtain rfl := honly hget
        rw [hroot] at hget
        cases hget
        simp
  · have hfrontier : (start g symbol stream).tree.onFrontier SyntaxTree.root = true := by
      simp [SyntaxTree.onFrontier, hroot]
    rw [SyntaxTree.frontier, horder, List.filter_cons_of_pos hfrontier]
    rfl
  · rw [hnodes]
    simp [start]
  · rw [hnodes]
    simp [start]
  · rw [hnodes]
    simp [start]

theorem Sound.top (h : p.Sound g symbol order) (hpopped : p.Popped id r) :
    p.tree.get? id =
      some (.fresh (p.tree.label id) (g.isNonterminal (p.tree.label id))) := by
  have hmem : id ∈ p.stack.toList := by
    rw [hpopped.stack]
    exact List.mem_cons_self
  obtain ⟨n, hn, hopen⟩ := (Option.any_eq_true _ _).mp ((h.stack id).mp hmem)
  have hfresh := Node.eq_fresh_of_isOpen hopen
  rw [(h.tree.node id n hn).kind, Bool.not_not] at hfresh
  have hlabel : p.tree.label id = n.label := by
    rw [SyntaxTree.label, hn]
  rw [hlabel, hn, ← hfresh]

theorem Sound.advance (h : p.Sound g symbol order) {n n' : Node} {rhs : List String}
    (hadvances : Advances g p q id n rhs n') :
    q.Sound g symbol (order ++ SyntaxTree.newlyMatched p.tree q.tree) := by
  have hcloses := hadvances.closes
  obtain ⟨rest, hstack, hstack'⟩ := hadvances.stack
  have hnodup := h.nodup
  rw [hstack, List.nodup_cons] at hnodup
  have hlt : ∀ x ∈ rest, x < p.tree.size := by
    intro x hx
    have hany := (h.stack x).mp (by rw [hstack]; exact List.mem_cons_of_mem id hx)
    obtain ⟨m, hm, -⟩ := (Option.any_eq_true _ _).mp hany
    exact SyntaxTree.lt_size_of_get? hm
  constructor
  · exact h.tree.closes hcloses
  · rw [hstack', hcloses.node.children_eq]
    refine List.Nodup.append List.nodup_range' hnodup.2 ?_
    intro x hchild hrest
    have hold := hlt x hrest
    rw [List.mem_range'_1] at hchild
    omega
  · intro x
    rw [hstack', List.mem_append, hcloses.any_isOpen_iff x, ← h.stack x, hstack, List.mem_cons]
    by_cases hx : x = id
    · subst hx
      simp [hnodup.1]
    · simp [hx]
  · intro x
    rw [List.mem_append, h.matched x, SyntaxTree.mem_newlyMatched]
    constructor
    · rintro (hold | hnew)
      · exact hcloses.any_isMatched hold
      · exact hnew.1
    · intro hx
      by_cases hold : (p.tree.get? x).any Node.isMatched = true
      · exact Or.inl hold
      · exact Or.inr ⟨hx, hold⟩
  · rw [hstack']
    exact h.tree.frontier_closes hcloses (by rw [h.frontier, hstack])
  · rw [hadvances.expansions, h.expansions, hcloses.countP_eq Node.isExpanded_fresh]
  · rw [hadvances.epsilonExpansions, h.epsilonExpansions, hcloses.countP_eq Node.isEpsilon_fresh]
  · rw [hadvances.terminalsMatched, h.terminalsMatched, hcloses.countP_eq Node.isMatched_fresh]

theorem Sound.closed (h : p.Sound g symbol order) (hstack : p.stack.toList = []) {n : Node}
    (hn : n ∈ p.tree.nodes.toList) : n.isOpen = false := by
  obtain ⟨id, hid⟩ := List.mem_iff_getElem?.mp hn
  rw [← SyntaxTree.get?_eq_toList] at hid
  cases hopen : n.isOpen with
  | false => rfl
  | true =>
      have hmem := (h.stack id).mpr (by rw [hid]; exact hopen)
      rw [hstack] at hmem
      cases hmem

theorem Sound.size_eq (h : p.Sound g symbol order) (hstack : p.stack.toList = []) :
    p.tree.size = p.metrics.expansions + p.metrics.terminalsMatched := by
  have hcount : p.tree.nodes.toList.countP Node.isMatched =
      p.tree.nodes.toList.countP fun n => decide ¬n.isExpanded = true := by
    refine List.countP_congr fun n hn => ?_
    rw [Node.isMatched_eq_not_isExpanded (h.closed hstack hn)]
    simp
  rw [h.expansions, h.terminalsMatched, hcount, ← List.length_eq_countP_add_countP,
    SyntaxTree.length_toList]

variable [TokenStream τ]

theorem stepNode_running {label : String} {lookahead : Option Token} (hpopped : p.Popped id r)
    (h : r.stepNode g preferences id label lookahead = .running q) :
    ∃ r', p.Popped id r' ∧
      ((g.isNonterminal label = true ∧ ∃ rhs, q = r'.expand g id rhs) ∨
        g.isNonterminal label = false ∧ ∃ t, q = r'.accept id t) := by
  rw [stepNode] at h
  split at h
  · rename_i hkind
    rw [stepNonterminal] at h
    split at h
    · cases h
    · rename_i rhs hentry
      refine ⟨r.emit (expansionEvents preferences label (lookahead.map (·.lexClass)) rhs),
        ⟨hpopped.tree, hpopped.metrics, hpopped.stack⟩, Or.inl ⟨hkind, rhs, ?_⟩⟩
      cases h
      rfl
  · rename_i hkind
    unfold stepTerminal at h
    split at h
    · cases h
    · rename_i t
      split at h
      · split at h
        · cases h
        · rename_i stream events hpull
          refine ⟨{ r with stream := stream }.emit events,
            ⟨hpopped.tree, hpopped.metrics, hpopped.stack⟩, Or.inr ⟨?_, t, ?_⟩⟩
          · exact Bool.eq_false_iff.mpr hkind
          · cases h
            rfl
      · cases h

/-- All that a step can do, short of stopping. -/
theorem step_running (h : p.step g preferences = .running q) :
    ∃ id r, p.Popped id r ∧
      ((g.isNonterminal (p.tree.label id) = true ∧ ∃ rhs, q = r.expand g id rhs) ∨
        g.isNonterminal (p.tree.label id) = false ∧ ∃ t, q = r.accept id t) := by
  rw [step] at h
  split at h
  · rw [complete] at h
    split at h <;> cases h
  · rename_i id stack htop
    split at h
    · cases h
    · refine ⟨id, stepNode_running ?_ h⟩
      exact ⟨rfl, rfl, SizedList.toList_of_uncons?_some htop⟩

theorem stepNode_ne_ok {label : String} {lookahead : Option Token} {outcome : ParseOutcome} :
    p.stepNode g preferences id label lookahead ≠ .stopped (.ok outcome) q := by
  intro h
  rw [stepNode] at h
  split at h
  · rw [stepNonterminal] at h
    split at h <;> cases h
  · unfold stepTerminal at h
    split at h
    · cases h
    · split at h
      · split at h <;> cases h
      · cases h

theorem step_stopped_ok {outcome : ParseOutcome}
    (h : p.step g preferences = .stopped (.ok outcome) q) :
    p.stack.toList = [] ∧ outcome.tree = p.tree ∧ q.metrics = p.metrics := by
  rw [step] at h
  split at h
  · rename_i htop
    rw [complete] at h
    split at h
    · cases h
    · cases h
      exact ⟨SizedList.toList_of_uncons?_none htop, rfl, rfl⟩
  · split at h
    · cases h
    · exact absurd h stepNode_ne_ok

theorem Sound.step (h : p.Sound g symbol order) (hstep : p.step g preferences = .running q) :
    q.Sound g symbol (order ++ SyntaxTree.newlyMatched p.tree q.tree) := by
  obtain ⟨id, r, hpopped, ⟨hkind, rhs, rfl⟩ | ⟨hkind, t, rfl⟩⟩ := step_running hstep
  · have htop := h.top hpopped
    rw [hkind] at htop
    exact h.advance (hpopped.expand htop rhs)
  · have htop := h.top hpopped
    rw [hkind] at htop
    exact h.advance (hpopped.accept htop t)

/-- The parse after a number of steps, if it does not stop before, and the nodes that
were matched on the way, in the order of the steps. -/
def afterSteps (g : Grammar) (preferences : SyntaxPreferences) :
    Nat → Parse τ → Option (Parse τ × List Nat)
  | 0, p => some (p, [])
  | n + 1, p =>
      match p.step g preferences with
      | .running q =>
          (afterSteps g preferences n q).map fun last =>
            (last.1, SyntaxTree.newlyMatched p.tree q.tree ++ last.2)
      | .stopped _ _ => none

theorem Sound.afterSteps {n : Nat} {more : List Nat} (h : p.Sound g symbol order)
    (hsteps : p.afterSteps g preferences n = some (q, more)) :
    q.Sound g symbol (order ++ more) := by
  induction n generalizing p order more with
  | zero =>
      cases hsteps
      rwa [List.append_nil]
  | succ n ih =>
      rw [Parse.afterSteps] at hsteps
      split at hsteps
      · rename_i next hstep
        obtain ⟨⟨last, later⟩, hlast, heq⟩ := Option.map_eq_some_iff.mp hsteps
        cases heq
        rw [← List.append_assoc]
        exact ih (h.step hstep) hlast
      · cases hsteps

/-- A run that ends has made some steps, and then stopped. -/
theorem afterSteps_of_run {bound : Nat} {result : Except SyntaxError ParseOutcome}
    (h : p.run g preferences bound = some (result, r)) :
    ∃ n q order, p.afterSteps g preferences n = some (q, order) ∧
      q.step g preferences = .stopped result r := by
  induction bound generalizing p with
  | zero => cases h
  | succ bound ih =>
      rw [run] at h
      split at h
      · rename_i next hstep
        obtain ⟨n, q, order, hsteps, hstop⟩ := ih h
        refine ⟨n + 1, q, SyntaxTree.newlyMatched p.tree next.tree ++ order, ?_, hstop⟩
        rw [afterSteps, hstep]
        simp only [hsteps, Option.map_some]
      · rename_i result' last hstep
        cases h
        exact ⟨0, p, [], rfl, hstep⟩

end Parse

namespace Grammar

variable {τ : Type} [TokenStream τ]

/-- The parse is sound after every number of steps. So when it succeeds every node has
been expanded or matched, and the depth-first walk ends having come to every node of
the array exactly once: with more fuel it comes to no more. -/
theorem parseAs?_sound (g : Grammar) (preferences : SyntaxPreferences) (symbol : String)
    (stream : τ) :
    (∀ n p order, (Parse.start g symbol stream).afterSteps g preferences n = some (p, order) →
      p.Sound g symbol order) ∧
    ∀ bound run tree trailing, g.parseAs? preferences bound symbol stream = some run →
      run.result = .ok ⟨tree, trailing⟩ →
      (∀ n ∈ tree.nodes.toList, n.isExpanded = true ∨ n.isMatched = true) ∧
      tree.size = run.metrics.expansions + run.metrics.terminalsMatched ∧
      tree.preOrder.Perm (List.range tree.size) ∧
      ∀ more, tree.visit (tree.size + more) [SyntaxTree.root] [] = tree.preOrder := by
  have hsteps : ∀ n p order,
      (Parse.start g symbol stream).afterSteps g preferences n = some (p, order) →
      p.Sound g symbol order :=
    fun n p order h => (Parse.sound_start g symbol stream).afterSteps h
  refine ⟨hsteps, ?_⟩
  intro bound run tree trailing hparse hok
  obtain ⟨last, hrun, hparts⟩ := run_of_parseAs? hparse
  rw [hok] at hrun
  obtain ⟨n, p, order, hsome, hstop⟩ := Parse.afterSteps_of_run hrun
  have hsound := hsteps n p order hsome
  obtain ⟨hstack, htree, hmetrics⟩ := Parse.step_stopped_ok hstop
  have hmetrics' : run.metrics = p.metrics := by rw [hparts, ← hmetrics]
  obtain rfl : tree = p.tree := htree
  refine ⟨?_, ?_, hsound.tree.all, ?_⟩
  · intro n hn
    have hmatched := Node.isMatched_eq_not_isExpanded (hsound.closed hstack hn)
    cases hexpanded : n.isExpanded with
    | true => exact Or.inl rfl
    | false =>
        rw [hexpanded] at hmatched
        exact Or.inr hmatched
  · rw [hmetrics']
    exact hsound.size_eq hstack
  · intro more
    have hvisit := SyntaxTree.visit_all hsound.tree.walk more
    rwa [hsound.tree.all.length_eq, List.length_range] at hvisit

end Grammar

end Lookahead
