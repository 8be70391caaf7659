import Lookahead.Parser.Basic
import Lookahead.Proofs.Predictive
import Lookahead.Proofs.ProperTokens
import Mathlib.Logic.Relation

/-!
The parser against predictive derivations. Each step is described through three
lists: the nodes of the tree, the stack, and the tokens of the queue. A derivation
is then replayed step by step, and builds its tree at the end of the node list and
in the block of nodes that were waiting on the stack; a stuck derivation ends in
the error that names its symbol. In the other direction, a run that ends has either
come to the end of a derivation or got stuck, by induction on its bound.
-/
namespace Lookahead

namespace SyntaxTree

theorem toList_append (t : SyntaxTree) (nodes : List Node) :
    (t.append nodes).nodes.toList = t.nodes.toList ++ nodes := by
  simp [append]

theorem toList_modify {t : SyntaxTree} {before after : List Node} {n : Node}
    (h : t.nodes.toList = before ++ n :: after) (change : Node → Node) :
    (t.nodes.modify before.length change).toList = before ++ change n :: after := by
  have hlist : (before ++ n :: after).modify before.length change =
      before ++ change n :: after := by
    clear h
    induction before with
    | nil => rfl
    | cons m before ih => simpa using ih
  rw [Array.toList_modify, h, hlist]

theorem label_of_toList {t : SyntaxTree} {before after : List Node} {n : Node}
    (h : t.nodes.toList = before ++ n :: after) : t.label before.length = n.label := by
  simp [label, get?_of_toList h]

end SyntaxTree

namespace Node

@[simp] theorem label_fresh (label : String) (isNonterminal : Bool) :
    (fresh label isNonterminal).label = label := rfl

@[simp] theorem label_setMatched (n : Node) (value : String) (span : Span) :
    (n.setMatched value span).label = n.label := by
  simp only [setMatched]
  split <;> rfl

@[simp] theorem label_setExpansion (n : Node) (rhs : List String) (children : List Nat) :
    (n.setExpansion rhs children).label = n.label := by
  simp only [setExpansion]
  split <;> rfl

end Node

namespace SizedList

variable {α : Type}

theorem uncons?_of_nil {l : SizedList α} (h : l.toList = []) : l.uncons? = none := by
  cases l with
  | mk toList size size_eq => subst h; rfl

theorem uncons?_of_cons {l : SizedList α} {a : α} {rest : List α} (h : l.toList = a :: rest) :
    ∃ tail, l.uncons? = some (a, tail) ∧ tail.toList = rest := by
  cases l with
  | mk toList size size_eq => subst h; exact ⟨_, rfl, rfl⟩

end SizedList

namespace Parse

structure Shows (p : Parse TokenQueue) (nodes : List Node) (stack : List Nat)
    (tokens : List Token) : Prop where
  nodes : p.tree.nodes.toList = nodes
  stack : p.stack.toList = stack
  tokens : p.stream.tokens = tokens

variable (g : Grammar) (preferences : SyntaxPreferences) {p : Parse TokenQueue}
  {before after : List Node} {n : Node} {stack : List Nat} {tokens : List Token}

/-- The nodes of symbols that have not been matched or expanded yet. -/
def waiting (symbols : List String) : List Node :=
  symbols.map fun symbol => .fresh symbol (g.isNonterminal symbol)

theorem step_of_top (h : p.Shows (before ++ n :: after) (before.length :: stack) tokens) :
    ∃ q : Parse TokenQueue, q.Shows (before ++ n :: after) stack (dropTrivia tokens) ∧
      p.step g preferences =
        q.stepNode g preferences before.length n.label (proper tokens).head? := by
  obtain ⟨tail, htop, htail⟩ := SizedList.uncons?_of_cons h.stack
  let queue : TokenQueue := ⟨dropTrivia tokens⟩
  refine ⟨{ p with stream := queue, stack := tail }.emit [], ⟨h.nodes, htail, rfl⟩, ?_⟩
  simp only [step, htop, TokenQueue.peekProper_eq, h.tokens, SyntaxTree.label_of_toList h.nodes,
    queue]

theorem step_terminal {t : Token} {rest : List Token}
    (h : p.Shows (before ++ n :: after) (before.length :: stack) tokens)
    (hterminal : g.isNonterminal n.label = false) (htokens : proper tokens = t :: rest)
    (hclass : t.lexClass = n.label) :
    ∃ q, p.step g preferences = .running q ∧
      q.Shows (before ++ n.setMatched t.value t.span :: after) stack
        (dropTrivia tokens).tail := by
  obtain ⟨q, hq, hstep⟩ := step_of_top g preferences h
  let queue : TokenQueue := ⟨(dropTrivia tokens).tail⟩
  refine ⟨({ q with stream := queue }.emit []).accept before.length t, ?_,
    ⟨SyntaxTree.toList_modify hq.nodes _, hq.stack, rfl⟩⟩
  simp [hstep, stepNode, hterminal, htokens, stepTerminal, hclass, TokenQueue.pullProper_eq,
    hq.tokens, dropTrivia_dropTrivia, queue]

theorem step_nonterminal {rhs : List String}
    (h : p.Shows (before ++ n :: after) (before.length :: stack) tokens)
    (hnonterminal : g.isNonterminal n.label = true)
    (hentry : g.entry n.label (Grammar.lookahead (proper tokens)) = some rhs) :
    let children := List.range' (before ++ n :: after).length rhs.length
    let nodes := before ++ n.setExpansion rhs children :: after
    ∃ q, p.step g preferences = .running q ∧
      q.Shows (nodes ++ (waiting g rhs ++ [])) (List.range' nodes.length rhs.length ++ stack)
        (dropTrivia tokens) := by
  obtain ⟨q, hq, hstep⟩ := step_of_top g preferences h
  have hsize : q.tree.size = (before ++ n :: after).length := by
    rw [← hq.nodes]
    rfl
  refine ⟨(q.emit (expansionEvents preferences n.label
    (Grammar.lookahead (proper tokens)) rhs)).expand g before.length rhs, ?_, ?_, ?_, hq.tokens⟩
  · simp only [Grammar.lookahead] at hentry ⊢
    simp only [hstep, stepNode, hnonterminal, if_true, stepNonterminal, hentry]
  · have happended : (q.tree.append (waiting g rhs)).nodes.toList =
        before ++ n :: (after ++ waiting g rhs) := by
      rw [SyntaxTree.toList_append, hq.nodes, List.append_assoc, List.cons_append]
    rw [← hsize, List.append_nil, List.append_assoc, List.cons_append]
    exact SyntaxTree.toList_modify happended _
  · simp [expand, emit, SizedList.prepend, hq.stack, hsize]

theorem step_rejected
    (h : p.Shows (before ++ n :: after) (before.length :: stack) tokens)
    (hrejected :
      (g.isNonterminal n.label = false ∧
        Grammar.lookahead (proper tokens) ≠ some n.label) ∨
      (g.isNonterminal n.label = true ∧
        g.entry n.label (Grammar.lookahead (proper tokens)) = none)) :
    ∃ q : Parse TokenQueue,
      p.step g preferences =
        .stopped (.error (.mismatch n.label (proper tokens).head?)) q ∧
      q.stream.tokens = dropTrivia tokens := by
  obtain ⟨q, hq, hstep⟩ := step_of_top g preferences h
  refine ⟨q.emit [(SyntaxError.mismatch n.label (proper tokens).head?).event], ?_, hq.tokens⟩
  obtain ⟨hterminal, hclass⟩ | ⟨hnonterminal, hentry⟩ := hrejected
  · cases hhead : (proper tokens).head? with
    | none => simp [hstep, stepNode, hterminal, stepTerminal, reject, hhead]
    | some t =>
        have hdiffers : t.lexClass ≠ n.label := by simpa [Grammar.lookahead, hhead] using hclass
        simp [hstep, stepNode, hterminal, stepTerminal, reject, hhead, hdiffers]
  · simp only [Grammar.lookahead] at hentry
    simp only [hstep, stepNode, hnonterminal, if_true, stepNonterminal, hentry, reject]

theorem step_complete {nodes : List Node} (h : p.Shows nodes [] tokens) :
    ∃ q : Parse TokenQueue,
      p.step g preferences = .stopped (.ok ⟨p.tree, (proper tokens).head?⟩) q ∧
      q.stream.tokens = (dropTrivia tokens).tail := by
  let queue : TokenQueue := ⟨(dropTrivia tokens).tail⟩
  refine ⟨({ p with stream := queue }.emit []).emit
    (completionEvents preferences p.tree.size (proper tokens).head?), ?_, rfl⟩
  simp only [step, SizedList.uncons?_of_nil h.stack, complete, TokenQueue.pullProper_eq,
    h.tokens, queue]

def Reaches : Parse TokenQueue → Parse TokenQueue → Prop :=
  Relation.ReflTransGen fun p q => p.step g preferences = .running q

theorem Shows.top {g : Grammar} {label : String} {symbols : List String}
    (h : p.Shows (before ++ (waiting g (label :: symbols) ++ after))
      (List.range' before.length (label :: symbols).length ++ stack) tokens) :
    p.Shows (before ++ .fresh label (g.isNonterminal label) :: (waiting g symbols ++ after))
      (before.length :: (List.range' (before.length + 1) symbols.length ++ stack)) tokens := by
  simpa [waiting, List.range'_succ] using h

variable {g} in
/-- A derivation is replayed: the waiting nodes become the roots of its trees, and
all that is below them goes to the end of the node list. -/
theorem reaches_of_derives {symbols : List String} {input rest : List Token}
    {trees : List (ParseTree (String × Span))} (h : g.Derives symbols input trees rest)
    {p : Parse TokenQueue} {before after : List Node} {stack : List Nat} {tokens : List Token}
    {first : Nat} (hfirst : first = before.length + symbols.length + after.length)
    (hshows : p.Shows (before ++ (waiting g symbols ++ after))
      (List.range' before.length symbols.length ++ stack) tokens)
    (htokens : proper tokens = input) :
    ∃ q left, Reaches g preferences p q ∧
      q.Shows (before ++ (ParseTree.roots first trees ++
        (after ++ ParseTree.blocksAll first trees))) stack left ∧
      proper left = rest ∧ left <:+ tokens := by
  induction h generalizing p before after stack tokens first with
  | nil input =>
      refine ⟨p, tokens, .refl, ?_, htokens, List.suffix_rfl⟩
      simpa [waiting, ParseTree.roots, ParseTree.blocksAll] using hshows
  | @terminal label t symbols input rest trees hterminal hclass hrest ih =>
      obtain ⟨tail, hdropped, htail⟩ := dropTrivia_eq_cons htokens
      obtain ⟨p', hstep, hp'⟩ := step_terminal g preferences hshows.top hterminal htokens hclass
      rw [hdropped] at hp'
      obtain ⟨q, left, hreaches, hq, hleft, hsuffix⟩ :=
        @ih p' (before ++ [⟨label, .terminal (some (t.value, t.span))⟩]) after stack tail first
          (by simp at hfirst ⊢; omega)
          (by simpa [Node.setMatched, Node.fresh, hterminal] using hp') htail
      refine ⟨q, left, .head hstep hreaches, ?_, hleft, ?_⟩
      · simpa [ParseTree.roots, ParseTree.node, ParseTree.blocksAll, ParseTree.blocks,
          ParseTree.descendantCount] using hq
      · have htokens' := dropTrivia_suffix tokens
        rw [hdropped] at htokens'
        exact hsuffix.trans ((List.suffix_cons t tail).trans htokens')
  | @nonterminal label rhs symbols input middle rest children trees hnt hentry hc hr ihc ihr =>
      have hlength : children.length = rhs.length := by rw [← hc.labels, List.length_map]
      have hcount : (ParseTree.branch label children).descendantCount =
          rhs.length + ParseTree.descendantCounts children := by
        rw [← hlength]
        rfl
      have hsize : (before ++ .fresh label (g.isNonterminal label) ::
          (waiting g symbols ++ after)).length = first := by
        simp [waiting] at hfirst ⊢
        omega
      have hroot : (Node.fresh label (g.isNonterminal label)).setExpansion rhs
          (List.range' first rhs.length) = (ParseTree.branch label children).node first := by
        simp [Node.setExpansion, Node.fresh, ParseTree.node, hnt, hc.labels, hlength]
      subst htokens
      obtain ⟨p', hstep, hp'⟩ := step_nonterminal g preferences hshows.top hnt hentry
      rw [hsize, hroot] at hp'
      -- the children, in the block that the expansion has added
      obtain ⟨p'', middle', hreaches, hp'', hmiddle, hsuffix⟩ :=
        ihc rfl hp' (proper_dropTrivia tokens)
      have hfirst' : (before ++ (ParseTree.branch label children).node first ::
          (waiting g symbols ++ after)).length + rhs.length + 0 = first + rhs.length := by
        simp [waiting] at hfirst ⊢
        omega
      rw [List.length_nil, hfirst'] at hp''
      -- the symbols after it, in the block where it stood itself
      obtain ⟨q, left, hreaches', hq, hleft, hsuffix'⟩ :=
        @ihr p'' (before ++ [(ParseTree.branch label children).node first])
          (after ++ (ParseTree.roots (first + rhs.length) children ++
            ParseTree.blocksAll (first + rhs.length) children)) stack middle'
          (first + (rhs.length + ParseTree.descendantCounts children))
          (by simp at hfirst ⊢; omega) (by simpa using hp'') hmiddle
      refine ⟨q, left, .head hstep (hreaches.trans hreaches'), ?_, hleft,
        hsuffix'.trans (hsuffix.trans (dropTrivia_suffix tokens))⟩
      simpa [ParseTree.roots, ParseTree.blocksAll, ParseTree.blocks, hcount, hlength] using hq

/-- The parse ends in the error of a symbol, which is left in front of the queue. -/
def StopsAt (p : Parse TokenQueue) (expected : String) (rest tokens : List Token) : Prop :=
  ∃ last q, Reaches g preferences p last ∧
    last.step g preferences = .stopped (.error (.mismatch expected rest.head?)) q ∧
    proper q.stream.tokens = rest ∧ q.stream.tokens.head? = rest.head? ∧
    q.stream.tokens <:+ tokens

theorem stopsAt_of_rejected
    (h : p.Shows (before ++ n :: after) (before.length :: stack) tokens)
    (hrejected :
      (g.isNonterminal n.label = false ∧
        Grammar.lookahead (proper tokens) ≠ some n.label) ∨
      (g.isNonterminal n.label = true ∧
        g.entry n.label (Grammar.lookahead (proper tokens)) = none)) :
    StopsAt g preferences p n.label (proper tokens) tokens := by
  obtain ⟨q, hstep, hq⟩ := step_rejected g preferences h hrejected
  refine ⟨p, q, .refl, hstep, ?_, ?_, ?_⟩
  · rw [hq, proper_dropTrivia]
  · rw [hq, head?_dropTrivia]
  · rw [hq]
    exact dropTrivia_suffix tokens

theorem StopsAt.of_reaches {g : Grammar} {preferences : SyntaxPreferences}
    {p q : Parse TokenQueue} {expected : String} {rest left tokens : List Token}
    (hreaches : Reaches g preferences p q) (hsuffix : left <:+ tokens)
    (h : StopsAt g preferences q expected rest left) :
    StopsAt g preferences p expected rest tokens := by
  obtain ⟨last, r, hlast, hstep, hproper, hhead, hleft⟩ := h
  exact ⟨last, r, hreaches.trans hlast, hstep, hproper, hhead, hleft.trans hsuffix⟩

variable {g}

/-- A stuck derivation is replayed up to the symbol at which it is stuck. -/
theorem stopsAt_of_stuck {symbols : List String} {expected : String} {input rest : List Token}
    (h : g.Stuck symbols input expected rest)
    {p : Parse TokenQueue} {before after : List Node} {stack : List Nat} {tokens : List Token}
    (hshows : p.Shows (before ++ (waiting g symbols ++ after))
      (List.range' before.length symbols.length ++ stack) tokens)
    (htokens : proper tokens = input) :
    StopsAt g preferences p expected rest tokens := by
  induction h generalizing p before after stack tokens with
  | @mismatch label symbols input hterminal hclass =>
      subst htokens
      exact stopsAt_of_rejected g preferences hshows.top (Or.inl ⟨hterminal, hclass⟩)
  | @blank label symbols input hnonterminal hentry =>
      subst htokens
      exact stopsAt_of_rejected g preferences hshows.top (Or.inr ⟨hnonterminal, hentry⟩)
  | @inside label expected rhs symbols input rest hnonterminal hentry hchildren ih =>
      subst htokens
      obtain ⟨q, hstep, hq⟩ := step_nonterminal g preferences hshows.top hnonterminal hentry
      refine StopsAt.of_reaches (.single hstep) (dropTrivia_suffix tokens) ?_
      exact ih hq (proper_dropTrivia tokens)
  | @later label expected symbols input middle rest tree hfirst hrest ih =>
      have htop : p.Shows (before ++ (waiting g [label] ++ (waiting g symbols ++ after)))
          (List.range' before.length 1 ++
            (List.range' (before.length + 1) symbols.length ++ stack)) tokens := hshows.top
      obtain ⟨q, left, hreaches, hq, hleft, hsuffix⟩ :=
        reaches_of_derives preferences hfirst rfl htop htokens
      refine StopsAt.of_reaches hreaches hsuffix ?_
      generalize before.length + [label].length + (waiting g symbols ++ after).length = first at hq
      refine @ih q (before ++ [tree.node first]) (after ++ tree.blocks first) stack left ?_ hleft
      simpa [ParseTree.roots, ParseTree.blocksAll] using hq

/-- The labels of the nodes on the stack, which all exist. -/
def Pending (labels : List String) (stack : List Nat) (symbols : List String) : Prop :=
  stack.map (labels[·]?) = symbols.map some

theorem Pending.extend {labels symbols : List String} {stack : List Nat}
    (h : Pending labels stack symbols) (more : List String) :
    Pending (labels ++ more) stack symbols := by
  refine Eq.trans (List.map_congr_left fun id hid => ?_) h
  have hsome : labels[id]? ∈ symbols.map some := h ▸ List.mem_map_of_mem hid
  obtain ⟨symbol, -, hsymbol⟩ := List.mem_map.mp hsome
  exact List.getElem?_append_left (List.getElem?_eq_some_iff.mp hsymbol.symm).1

theorem pending_new (labels more : List String) :
    Pending (labels ++ more) (List.range' labels.length more.length) more := by
  refine List.ext_getElem? fun i => ?_
  by_cases hi : i < more.length
  · simp [hi]
  · simp [hi]

theorem Pending.append {labels symbols : List String} {stack : List Nat}
    (h : Pending labels stack symbols) (more : List String) :
    Pending (labels ++ more) (List.range' labels.length more.length ++ stack)
      (more ++ symbols) := by
  have hold := h.extend more
  have hnew := pending_new labels more
  rw [Pending] at hold hnew ⊢
  rw [List.map_append, List.map_append, hold, hnew]

theorem Pending.top {nodes : List Node} {id : Nat} {stack : List Nat} {symbols : List String}
    (h : Pending (nodes.map Node.label) (id :: stack) symbols) :
    ∃ before n after rest, nodes = before ++ n :: after ∧ id = before.length ∧
      symbols = n.label :: rest ∧ Pending (nodes.map Node.label) stack rest := by
  cases symbols with
  | nil => cases h
  | cons symbol rest =>
      obtain ⟨hfirst, hrest⟩ := List.cons.inj h
      simp only at hfirst
      rw [List.getElem?_map, Option.map_eq_some_iff] at hfirst
      obtain ⟨n, hn, rfl⟩ := hfirst
      obtain ⟨hlt, rfl⟩ := List.getElem?_eq_some_iff.mp hn
      refine ⟨nodes.take id, nodes[id], nodes.drop (id + 1), rest, ?_, ?_, rfl, hrest⟩
      · rw [List.getElem_cons_drop, List.take_append_drop]
      · rw [List.length_take, Nat.min_eq_left (Nat.le_of_lt hlt)]

/-- A run that ends has come to the end of a derivation, or got stuck. -/
theorem decided_of_run (bound : Nat) {p : Parse TokenQueue} {nodes : List Node}
    {stack : List Nat} {tokens : List Token} {symbols : List String}
    {ended : Except SyntaxError ParseOutcome × Parse TokenQueue}
    (hshows : p.Shows nodes stack tokens) (hpending : Pending (nodes.map Node.label) stack symbols)
    (hrun : p.run g preferences bound = some ended) : g.Decided symbols (proper tokens) := by
  induction bound generalizing p nodes stack tokens symbols with
  | zero => cases hrun
  | succ bound ih =>
      cases stack with
      | nil =>
          have hsymbols : symbols = [] := List.map_eq_nil_iff.mp hpending.symm
          exact Or.inl ⟨[], proper tokens, hsymbols ▸ .nil _⟩
      | cons id stack =>
          obtain ⟨before, n, after, rest, rfl, rfl, rfl, hrest⟩ := hpending.top
          cases hkind : g.isNonterminal n.label with
          | false =>
              by_cases hclass : Grammar.lookahead (proper tokens) = some n.label
              · obtain ⟨t, hhead, hlabel⟩ := Option.map_eq_some_iff.mp hclass
                obtain ⟨input, hinput⟩ := List.head?_eq_some_iff.mp hhead
                obtain ⟨tail, hdropped, rfl⟩ := dropTrivia_eq_cons hinput
                obtain ⟨q, hstep, hq⟩ := step_terminal g preferences hshows hkind hinput hlabel
                rw [hdropped] at hq
                rw [run, hstep] at hrun
                rw [hinput]
                refine .terminal hkind hlabel (ih hq ?_ hrun)
                simpa using hrest
              · exact Or.inr ⟨n.label, proper tokens, .mismatch hkind hclass⟩
          | true =>
              cases hentry : g.entry n.label (Grammar.lookahead (proper tokens)) with
              | none => exact Or.inr ⟨n.label, proper tokens, .blank hkind hentry⟩
              | some rhs =>
                  obtain ⟨q, hstep, hq⟩ := step_nonterminal g preferences hshows hkind hentry
                  rw [run, hstep] at hrun
                  have hpending' := hrest.append rhs
                  have hdecided := ih hq
                    (by simpa [waiting, Function.comp_def, Node.fresh] using hpending') hrun
                  rw [proper_dropTrivia] at hdecided
                  exact .nonterminal hkind hentry hdecided

end Parse

end Lookahead
