import LedgerClient.Proofs.Yaml.Compose
import LedgerClient.Proofs.Yaml.Number
import LedgerClient.Config.Load

/-!
# Configurations that are saved

What is written for a configuration is read as that configuration: the document is read as the tree
that was written (`Yaml.Tree.parse?_print`), and each field of the tree as what it was written for. No
field is left out but an interval of pings that is not set, which is also what its default says.
-/

namespace LedgerClient.Config

open Yaml (Document Node Tree field?)

variable {α : Type}

/-! ## Scalars -/

theorem text?_text (d : Document) (s : String) : d.text? (Tree.text s).toNode = some s := rfl

theorem natural?_number (n : UInt64) : Yaml.Scalar.natural? (UInt64.size - 1)
    ⟨toString n.toNat, .plain, none⟩ = some n.toNat := by
  rw [Yaml.Scalar.natural?, if_pos (.inl rfl)]
  exact Yaml.natural?_toString (Nat.le_pred_of_lt n.toNat_lt_size)

theorem number?_number (d : Document) (n : UInt64) :
    number? d (Tree.number n.toNat).toNode = some n := by
  change ((Yaml.Scalar.natural? _ ⟨toString n.toNat, .plain, none⟩).map UInt64.ofNat) = some n
  rw [natural?_number, Option.map_some, UInt64.ofNat_toNat]

theorem isNothing_digits (n : Nat) :
    ((toString n).isEmpty || Yaml.isNullWord (toString n)) = false := by
  have htext : (toString n).toList = Nat.toDigits 10 n := Nat.toList_repr
  have hdigits : (toString n).toList.all Char.isDigit = true := by
    rw [htext]
    exact List.all_eq_true.mpr fun c hc => Yaml.isDigit_of_mem_toDigits hc
  have hwords : ∀ word ∈ ["null", "Null", "NULL", "~"], word.toList.all Char.isDigit = false := by
    decide
  have hempty : (toString n).isEmpty = false := by
    rw [← Bool.not_eq_true, String.isEmpty_iff, ← String.toList_eq_nil_iff, htext]
    exact Nat.toDigits_ne_nil
  rw [hempty, Bool.false_or, Yaml.isNullWord, ← Bool.not_eq_true, List.contains_iff_mem]
  exact fun hmem => Bool.false_ne_true ((hwords _ hmem).symm.trans hdigits)

theorem optionalNumber?_number (d : Document) (n : UInt64) :
    optionalNumber? d (Tree.number n.toNat).toNode = some (some n) := by
  have hscalar : d.scalar? (Tree.number n.toNat).toNode = some ⟨toString n.toNat, .plain, none⟩ := rfl
  rw [optionalNumber?, hscalar, Option.bind_some, Yaml.Scalar.optional?, if_neg (by simp)]
  simp only [isNothing_digits, natural?_number, Option.map_some, UInt64.ofNat_toNat]
  rfl

theorem category?_text (d : Document) (c : Stream.Category) :
    category? d (Tree.text c.name).toNode = some c := by
  cases c <;> rfl

/-! ## Lists and fields -/

theorem items?_list (d : Document) (ts : List Tree) :
    d.items? (Tree.list ts).toNode = some (Tree.nodes ts) := rfl

theorem mapM_nodes {read : Node → Option α} {write : α → Tree}
    (h : ∀ a, read (write a).toNode = some a) (as : List α) :
    (Tree.nodes (as.map write)).mapM read = some as := by
  induction as with
  | nil => rfl
  | cons a as ih => simp [Tree.nodes, h, ih]

theorem fields?_fields (d : Document) (fs : List (String × Tree)) :
    d.fields? (Tree.fields fs).toNode = some (fs.map fun (name, t) => (name, t.toNode)) := by
  change (Tree.pairNodes fs).mapM _ = _
  induction fs with
  | nil => rfl
  | cons f fs ih =>
    obtain ⟨name, t⟩ := f
    have hname : d.text? (.styled .plain name) = some name := rfl
    simp [Tree.pairNodes, hname, ih]

/-! ## Sections -/

theorem toFields_remote (r : Remote) : r.toFields =
    [("endpoint", .text r.endpoint), ("connect_timeout_secs", .number r.connectTimeout.toNat),
      ("write_timeout_secs", .number r.writeTimeout.toNat)] ++
    (r.pingInterval.map fun n => ("ping_interval_secs", .number n.toNat)).toList ++
    [("liveness_window_secs", .number r.livenessWindow.toNat),
      ("request_timeout_secs", .number r.requestTimeout.toNat),
      ("outgoing_capacity", .number r.outgoingCapacity.toNat),
      ("stream_capacity", .number r.streamCapacity.toNat)] := rfl

theorem ofNode?_remote (d : Document) (r : Remote) :
    Remote.ofNode? d (Tree.fields r.toFields).toNode = some r := by
  obtain ⟨endpoint, connect, write, ping, liveness, request, outgoing, stream⟩ := r
  rw [Remote.ofNode?, fields?_fields, toFields_remote]
  cases ping with
  | none => simp [field?, number?_number, text?_text, Remote.default]
  | some n => simp [field?, number?_number, optionalNumber?_number, text?_text]

theorem ofNode?_subscription (d : Document) (s : Subscription) :
    Subscription.ofNode? d (Tree.fields s.toFields).toNode = some s := by
  rw [Subscription.ofNode?, fields?_fields]
  simp [Subscription.toFields, field?, items?_list, mapM_nodes (category?_text d),
    mapM_nodes (text?_text d)]

theorem ofDocument?_toFields (c : Config) :
    ofDocument? ⟨(Tree.fields c.toFields).toNode, []⟩ = some c := by
  rw [ofDocument?, fields?_fields]
  simp [toFields, field?, ofNode?_remote, ofNode?_subscription]

/-! ## Documents -/

theorem allNamed_texts (write : α → String) (as : List α) :
    Tree.AllNamed (as.map fun a => .text (write a)) := by
  induction as with
  | nil => trivial
  | cons a as ih => exact ⟨trivial, ih⟩

theorem fieldsNamed (c : Config) : Tree.FieldsNamed c.toFields := by
  have hremote : Tree.FieldsNamed c.remote.toFields := by
    rw [toFields_remote]
    cases c.remote.pingInterval <;>
      simp only [Option.map_none, Option.map_some, Option.toList_none, Option.toList_some,
        List.append_nil, List.cons_append, List.nil_append, Tree.FieldsNamed, Tree.IsNamed] <;>
      decide
  have hsubscription : Tree.FieldsNamed c.subscription.toFields := by
    refine ⟨by decide, allNamed_texts _ _, by decide, allNamed_texts id _, trivial⟩
  exact ⟨by decide, hremote, by decide, hsubscription, trivial⟩

theorem parse?_print (c : Config) : parse? c.print = some c := by
  rw [parse?, print, Tree.parse?_print c.toFields (fieldsNamed c) (by simp [toFields]),
    Option.bind_some, ofDocument?_toFields]

/-! ## Files -/

theorem readText_of_holds {files : Files} {name text : String}
    (hname : name.toList.contains '\x00' = false)
    (h : files name = .ok text.toUTF8.data.toList) : files.readText name = .ok text := by
  have htext : String.fromUTF8? text.toUTF8 = some text := dif_pos text.isValidUTF8
  have hbytes : (⟨text.toUTF8.data.toList.toArray⟩ : ByteArray) = text.toUTF8 := by
    rw [Array.toArray_toList]
  simp only [Files.readText, Files.read, hname, h, Bool.false_eq_true, if_false, Except.mapError,
    hbytes, htext]

/-- **Saving a configuration and reading it back is the identity**, whatever its texts hold: a file
with what is printed for a configuration gives just that configuration. -/
theorem savedThenRead (c : Config) : parse? c.print = some c ∧
    ∀ (files : Files) (name : String), files.readText name = .ok c.print →
      ofFile files name = .ok c := by
  refine ⟨parse?_print c, fun files name h => ?_⟩
  rw [ofFile, h]
  simp only [parse?_print]

/-- A configuration without streams, with accounts that look like something else. -/
theorem savedThenRead_of_odd_texts :
    let c : Config := ⟨{ Remote.default with endpoint := "", pingInterval := some 0 },
      ⟨[], ["null", "a: b", " 12\n", "12", "null"]⟩⟩
    let files : Files := fun _ => .ok c.print.toUTF8.data.toList
    files.readText "client.yaml" = .ok c.print ∧ ofFile files "client.yaml" = .ok c := by
  intro c files
  have htext : files.readText "client.yaml" = .ok c.print := readText_of_holds (by decide) rfl
  exact ⟨htext, (savedThenRead c).2 files "client.yaml" htext⟩

end LedgerClient.Config
