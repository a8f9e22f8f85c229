import LedgerClient.Proofs.Yaml.Tokens
import LedgerClient.Yaml.Document

/-!
# The document of a tree

Reading the tokens of a tree leads to its nodes. Each reader takes just the tokens of its part
(`Composer.Passes`); a list that has no tokens around its items ends where no dash follows.
-/

namespace LedgerClient.Yaml

namespace Composer

variable {α β : Type} {fuel : Nat} {block indentless : Bool} {c : Composition} {t : Token}
  {tokens tokens' rest : List Token}

/-! ## Readers -/

@[simp] theorem bind_apply (m : Composer α) (f : α → Composer β) (c : Composition) :
    (m >>= f) c = (m c).bind fun p => f p.1 p.2 := rfl

@[simp] theorem pure_apply (a : α) (c : Composition) : (pure a : Composer α) c = some (a, c) := rfl

@[simp] theorem map_apply (f : α → β) (m : Composer α) (c : Composition) :
    (f <$> m) c = (m c).map fun p => (f p.1, p.2) := by
  change (m c).bind _ = _
  cases m c <;> rfl

@[simp] theorem peek_apply (c : Composition) : peek c = some (c.tokens.head?, c) := rfl

@[simp] theorem skip_apply (c : Composition) :
    skip c = some ((), { c with tokens := c.tokens.drop 1 }) := rfl

@[simp] theorem tagText_none (c : Composition) : tagText none c = some (none, c) := rfl

@[simp] theorem anchored_none (node : Node) (c : Composition) :
    anchored none node c = some (node, c) := rfl

/-- A reader takes these tokens off a composition, if those behind them pass a test. -/
def Passes (m : Composer α) (tokens : List Token) (a : α) (stops : List Token → Prop) : Prop :=
  ∀ (c : Composition) rest, stops rest →
    m { c with tokens := tokens ++ rest } = some (a, { c with tokens := rest })

variable {stops stops' : List Token → Prop}

theorem Passes.mono {m : Composer α} {a : α} (h : Passes m tokens a stops)
    (hstops : ∀ rest, stops' rest → stops rest) : Passes m tokens a stops' :=
  fun c rest hrest => h c rest (hstops rest hrest)

/-! ## Nodes -/

theorem node_scalar (text : String) (style : Style) :
    Passes (node (fuel + 1) block indentless) [.scalar text style] (.styled style text) stops := by
  intro c rest _
  simp [node, properties, Node.styled]

theorem node_emptySequence :
    Passes (node (fuel + 2) block indentless) [.flowSequenceStart, .flowSequenceEnd] (.sequence [])
      stops := by
  intro c rest _
  simp [node, properties, flowItems]

theorem node_emptyMapping :
    Passes (node (fuel + 2) block indentless) [.flowMappingStart, .flowMappingEnd] (.mapping [])
      stops := by
  intro c rest _
  simp [node, properties, flowPairs]

theorem node_sequence {items : List Node}
    (h : Passes (blockItems fuel) (tokens ++ [.blockEnd]) items fun _ => True) :
    Passes (node (fuel + 1) true indentless) (.blockSequenceStart :: (tokens ++ [.blockEnd]))
      (.sequence items) stops := by
  intro c rest _
  have hitems := h c rest trivial
  simp only [List.append_assoc, List.singleton_append] at hitems
  simp [node, properties, hitems]

theorem node_mapping {pairs : List (Node × Node)}
    (h : Passes (blockPairs fuel) (tokens ++ [.blockEnd]) pairs fun _ => True) :
    Passes (node (fuel + 1) true indentless) (.blockMappingStart :: (tokens ++ [.blockEnd]))
      (.mapping pairs) stops := by
  intro c rest _
  have hpairs := h c rest trivial
  simp only [List.append_assoc, List.singleton_append] at hpairs
  simp [node, properties, hpairs]

theorem node_indentless {items : List Node}
    (h : Passes (indentlessItems fuel) (.blockEntry :: tokens) items stops) :
    Passes (node (fuel + 1) block true) (.blockEntry :: tokens) (.sequence items) stops := by
  intro c rest hrest
  have hitems := h c rest hrest
  simp only [List.cons_append] at hitems
  simp [node, properties, hitems]

/-! ## Items and pairs -/

theorem nodeUnless_node {ends : List Token} {a : Node}
    (ht : t ∉ ends) (h : Passes (node fuel block indentless) (t :: tokens) a stops) :
    Passes (nodeUnless (fuel + 1) ends block indentless) (t :: tokens) a stops := by
  intro c rest hrest
  have hnode := h c rest hrest
  simp only [List.cons_append] at hnode
  simp [nodeUnless, ht, hnode]

theorem blockItems_nil :
    Passes (blockItems (fuel + 1)) [.blockEnd] [] fun _ => True := by
  intro c rest _
  simp [blockItems]

theorem blockItems_cons {a : Node} {items : List Node}
    (h : Passes (nodeUnless fuel [.blockEntry, .blockEnd] true false) tokens a fun _ => True)
    (hmore : Passes (blockItems fuel) tokens' items fun _ => True) :
    Passes (blockItems (fuel + 1)) (.blockEntry :: (tokens ++ tokens')) (a :: items)
      fun _ => True := by
  intro c rest _
  have hitem := h c (tokens' ++ rest) trivial
  have hitems := hmore c rest trivial
  simp [blockItems, expect, hitem, hitems]

theorem indentlessItems_nil :
    Passes (indentlessItems (fuel + 1)) [] [] fun rest => rest.head? ≠ some .blockEntry := by
  intro c rest hrest
  simp [indentlessItems, hrest]

theorem indentlessItems_cons {a : Node} {items : List Node}
    (h : Passes (nodeUnless fuel [.blockEntry, .key, .value, .blockEnd] true false) tokens a
      fun _ => True)
    (hmore : Passes (indentlessItems fuel) tokens' items stops) :
    Passes (indentlessItems (fuel + 1)) (.blockEntry :: (tokens ++ tokens')) (a :: items) stops := by
  intro c rest hrest
  have hitem := h c (tokens' ++ rest) trivial
  have hitems := hmore c rest hrest
  simp [indentlessItems, hitem, hitems]

theorem blockPairs_nil :
    Passes (blockPairs (fuel + 1)) [.blockEnd] [] fun _ => True := by
  intro c rest _
  simp [blockPairs]

theorem blockPairs_cons {key value : Node} {pairs : List (Node × Node)} {name : List Token}
    (hkey : Passes (nodeUnless fuel [.key, .value, .blockEnd] true true) name key fun _ => True)
    (h : Passes (nodeUnless fuel [.key, .value, .blockEnd] true true) tokens value
      fun rest => rest.head? ≠ some .blockEntry)
    (hmore : Passes (blockPairs fuel) tokens' pairs fun _ => True)
    (hhead : ∀ rest, (tokens' ++ rest).head? ≠ some .blockEntry) :
    Passes (blockPairs (fuel + 1)) (.key :: (name ++ .value :: (tokens ++ tokens')))
      ((key, value) :: pairs) fun _ => True := by
  intro c rest _
  have hname := hkey c (.value :: (tokens ++ (tokens' ++ rest))) trivial
  have hvalue := h c (tokens' ++ rest) (hhead rest)
  have hpairs := hmore c rest trivial
  simp [blockPairs, expect, hname, hvalue, hpairs]

end Composer

namespace Tree

open Composer

theorem begins_nodeTokens (t : Tree) (indentless : Bool) : ∃ token more,
    t.nodeTokens indentless = token :: more ∧ token ∉ [.key, .value, .blockEnd] ∧
      (indentless = false → token ≠ .blockEntry) := by
  match t with
  | .text s => exact ⟨_, _, rfl, by simp, by simp⟩
  | .number n => exact ⟨_, _, rfl, by simp, by simp⟩
  | .list [] => exact ⟨_, _, rfl, by simp, by simp⟩
  | .list (t :: ts) =>
    cases indentless with
    | false => exact ⟨_, _, rfl, by simp, by simp⟩
    | true => exact ⟨_, _, rfl, by simp, by simp⟩
  | .fields [] => exact ⟨_, _, rfl, by simp, by simp⟩
  | .fields (f :: fs) => exact ⟨_, _, rfl, by simp, by simp⟩

theorem composes_nodeUnless {t : Tree} {indentless : Bool} {fuel : Nat} (ends : List Token)
    {stops : List Token → Prop} (hends : ∀ token ∈ ends, token ∈ [.key, .value, .blockEnd] ∨
      (indentless = false ∧ token = .blockEntry))
    (h : Passes (node fuel true indentless) (t.nodeTokens indentless) t.toNode stops) :
    Passes (nodeUnless (fuel + 1) ends true indentless) (t.nodeTokens indentless) t.toNode stops := by
  obtain ⟨token, more, htokens, hmid, hentry⟩ := begins_nodeTokens t indentless
  rw [htokens] at h ⊢
  refine nodeUnless_node (fun hmem => ?_) h
  rcases hends token hmem with hend | ⟨hindent, heq⟩
  · exact hmid hend
  · exact hentry hindent heq

mutual

theorem composes_node (t : Tree) (indentless : Bool) (fuel : Nat)
    (hfuel : 3 * (t.nodeTokens indentless).length + 2 ≤ fuel) :
    Passes (node fuel true indentless) (t.nodeTokens indentless) t.toNode
      fun rest => indentless = true → rest.head? ≠ some .blockEntry := by
  obtain ⟨fuel, rfl⟩ := Nat.exists_eq_add_of_le (Nat.le_trans (Nat.le_add_left 2 _) hfuel)
  rw [Nat.add_comm 2] at hfuel ⊢
  match t with
  | .text s => exact node_scalar s (.ofText s)
  | .number n => exact node_scalar (toString n) .plain
  | .list [] => exact node_emptySequence
  | .list (t :: ts) =>
    cases indentless with
    | false =>
      refine node_sequence (composes_blockItems (t :: ts) ?_)
      simp only [nodeTokens, Bool.false_eq_true, if_false, List.length_cons,
        List.length_append] at hfuel
      omega
    | true =>
      refine (node_indentless (composes_indentlessItems (t :: ts) ?_)).mono fun rest h => h rfl
      simp only [nodeTokens, if_true] at hfuel
      omega
  | .fields [] => exact node_emptyMapping
  | .fields (f :: fs) =>
    refine node_mapping (composes_blockPairs (f :: fs) ?_)
    simp only [nodeTokens, List.length_cons, List.length_append] at hfuel
    omega

theorem composes_blockItems (ts : List Tree) {fuel : Nat}
    (hfuel : 3 * (itemTokens ts).length + 1 ≤ fuel) :
    Passes (blockItems fuel) (itemTokens ts ++ [.blockEnd]) (nodes ts) fun _ => True := by
  obtain ⟨fuel, rfl⟩ := Nat.exists_eq_add_of_le (Nat.le_trans (Nat.le_add_left 1 _) hfuel)
  rw [Nat.add_comm 1] at hfuel ⊢
  match ts with
  | [] => exact blockItems_nil
  | t :: ts =>
    simp only [itemTokens, List.length_cons, List.length_append] at hfuel
    obtain ⟨fuel, rfl⟩ : ∃ k, fuel = k + 1 := Nat.exists_eq_succ_of_ne_zero (by omega)
    have hitem := composes_nodeUnless [.blockEntry, .blockEnd] (by simp)
      (composes_node t false fuel (by omega))
    rw [itemTokens, List.cons_append, List.append_assoc]
    exact blockItems_cons (hitem.mono (by simp)) (composes_blockItems ts (by omega))

theorem composes_indentlessItems (ts : List Tree) {fuel : Nat}
    (hfuel : 3 * (itemTokens ts).length + 1 ≤ fuel) :
    Passes (indentlessItems fuel) (itemTokens ts) (nodes ts)
      fun rest => rest.head? ≠ some .blockEntry := by
  obtain ⟨fuel, rfl⟩ := Nat.exists_eq_add_of_le (Nat.le_trans (Nat.le_add_left 1 _) hfuel)
  rw [Nat.add_comm 1] at hfuel ⊢
  match ts with
  | [] => exact indentlessItems_nil
  | t :: ts =>
    simp only [itemTokens, List.length_cons, List.length_append] at hfuel
    obtain ⟨fuel, rfl⟩ : ∃ k, fuel = k + 1 := Nat.exists_eq_succ_of_ne_zero (by omega)
    have hitem := composes_nodeUnless [.blockEntry, .key, .value, .blockEnd] (by simp)
      (composes_node t false fuel (by omega))
    exact indentlessItems_cons (hitem.mono (by simp)) (composes_indentlessItems ts (by omega))

theorem composes_blockPairs (fs : List (String × Tree)) {fuel : Nat}
    (hfuel : 3 * (fieldTokens fs).length + 1 ≤ fuel) :
    Passes (blockPairs fuel) (fieldTokens fs ++ [.blockEnd]) (pairNodes fs) fun _ => True := by
  obtain ⟨fuel, rfl⟩ := Nat.exists_eq_add_of_le (Nat.le_trans (Nat.le_add_left 1 _) hfuel)
  rw [Nat.add_comm 1] at hfuel ⊢
  match fs with
  | [] => exact blockPairs_nil
  | (name, t) :: fs =>
    simp only [fieldTokens, List.length_cons, List.length_append] at hfuel
    obtain ⟨fuel, rfl⟩ : ∃ k, fuel = k + 2 := ⟨fuel - 2, by omega⟩
    have hkey : Passes (nodeUnless (fuel + 2) [.key, .value, .blockEnd] true true)
        [.scalar name .plain] (.styled .plain name) fun _ => True :=
      nodeUnless_node (by simp) (node_scalar name .plain)
    have hvalue := composes_nodeUnless [.key, .value, .blockEnd] (by simp)
      (composes_node t true (fuel + 1) (by omega))
    have hpairs := blockPairs_cons hkey (hvalue.mono fun rest h _ => h)
      (composes_blockPairs fs (by omega)) (by cases fs <;> simp [fieldTokens])
    simpa [fieldTokens, pairNodes] using hpairs

end

/-- A document that is written for a tree is read as its tree. -/
theorem parse?_print (pairs : List (String × Tree)) (h : FieldsNamed pairs) (hne : pairs ≠ []) :
    Document.parse? (print pairs) = some ⟨(fields pairs).toNode, []⟩ := by
  obtain ⟨f, fs, rfl⟩ := List.exists_cons_of_ne_nil hne
  rw [Document.parse?, scan?_print (f :: fs) h hne, Option.bind_some]
  generalize htokens : nodeTokens false (.fields (f :: fs)) = tokens
  have hread := composes_node (.fields (f :: fs)) false (4 * tokens.length + 4)
    (by rw [htokens]; omega) ⟨tokens, defaultHandles, [], [], []⟩ [] (by simp)
  rw [htokens, List.append_nil] at hread
  have hstart : ∃ more, tokens = .blockMappingStart :: more := ⟨_, htokens.symm⟩
  obtain ⟨more, rfl⟩ := hstart
  have hroot : root false ⟨.blockMappingStart :: more, defaultHandles, [], [], []⟩ =
      some ((fields (f :: fs)).toNode, ⟨[], defaultHandles, [], [], []⟩) := hread
  have himplicit : (Token.blockMappingStart == Token.documentStart) = false := by decide
  simp [document?, directives, StateT.run, himplicit, hroot, isComplete, anchors]

end Tree

end LedgerClient.Yaml
