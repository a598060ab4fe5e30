import Mathlib.Data.List.Nodup
import SmokeBench.Toml.Parser

/-! A key stands in its table once. What a document is made of goes into it by `put`, which keeps the
keys distinct, and nothing else changes a table; so every table that a text is read to, a nested or
an inline one as well, has each of its keys once. -/

namespace SmokeBench.Toml

/-- Every table inside has each of its keys once. -/
inductive Value.Distinct : Value → Prop
  | string (s : String) : (string s).Distinct
  | integer (n : Int) : (integer n).Distinct
  | real (r : Real) : (real r).Distinct
  | boolean (b : Bool) : (boolean b).Distinct
  | moment : moment.Distinct
  | array {items : List Value} (h : ∀ v ∈ items, v.Distinct) : (array items).Distinct
  | table {entries : Entries} (keys : (entries.map Prod.fst).Nodup)
      (h : ∀ e ∈ entries, e.2.Distinct) : (table entries).Distinct

inductive Node.Distinct : Node → Prop
  | leaf {v : Value} (h : v.Distinct) : (leaf v).Distinct
  | table {origin : Origin} {d : Document} (keys : (d.map Prod.fst).Nodup)
      (h : ∀ e ∈ d, e.2.Distinct) : (table origin d).Distinct
  | tables {newest : Document} {older : List Document}
      (keys : ∀ d ∈ newest :: older, (d.map Prod.fst).Nodup)
      (h : ∀ d ∈ newest :: older, ∀ e ∈ d, e.2.Distinct) : (tables newest older).Distinct

structure Document.Distinct (d : Document) : Prop where
  keys : (d.map Prod.fst).Nodup
  nodes : ∀ e ∈ d, e.2.Distinct

namespace Node.Distinct

variable {origin : Origin} {d newest : Document} {older : List Document}

theorem table_iff : (Node.table origin d).Distinct ↔ Document.Distinct d := by
  constructor
  · intro h
    cases h with
    | table keys nodes => exact ⟨keys, nodes⟩
  · intro h
    exact .table h.keys h.nodes

theorem tables_iff :
    (Node.tables newest older).Distinct ↔ ∀ d ∈ newest :: older, Document.Distinct d := by
  constructor
  · intro h d hd
    cases h with
    | tables keys nodes => exact ⟨keys d hd, nodes d hd⟩
  · intro h
    exact .tables (fun d hd => (h d hd).keys) fun d hd => (h d hd).nodes

end Node.Distinct

namespace Document

variable {d d' : Document} {key : String} {node : Node}

theorem Distinct.empty : Distinct [] := ⟨List.nodup_nil, by simp⟩

theorem Distinct.get? (h : d.Distinct) (hnode : d.get? key = some node) : node.Distinct := by
  obtain ⟨e, he, rfl⟩ := Option.map_eq_some_iff.mp hnode
  exact h.nodes e (List.mem_of_find?_eq_some he)

theorem keys_put_of_mem (h : d.any (·.1 == key) = true) :
    (d.put key node).map Prod.fst = d.map Prod.fst := by
  rw [put, if_pos h, List.map_map]
  apply List.map_congr_left
  intro e _
  by_cases he : e.1 = key
  · simp [he]
  · simp [he]

theorem keys_put_of_not_mem (h : ¬ d.any (·.1 == key) = true) :
    (d.put key node).map Prod.fst = d.map Prod.fst ++ [key] := by
  rw [put, if_neg h, List.map_append]
  rfl

theorem Distinct.put (h : d.Distinct) (hnode : node.Distinct) : (d.put key node).Distinct := by
  by_cases hkey : d.any (·.1 == key) = true
  · refine ⟨by rw [keys_put_of_mem hkey]; exact h.keys, ?_⟩
    intro e he
    rw [Document.put, if_pos hkey] at he
    obtain ⟨x, hx, rfl⟩ := List.mem_map.mp he
    split
    · exact hnode
    · exact h.nodes x hx
  · have hnew : key ∉ d.map Prod.fst := by
      intro hmem
      obtain ⟨e, he, rfl⟩ := List.mem_map.mp hmem
      exact hkey (List.any_eq_true.mpr ⟨e, he, beq_self_eq_true _⟩)
    refine ⟨?_, ?_⟩
    · rw [keys_put_of_not_mem hkey, List.nodup_append]
      refine ⟨h.keys, List.nodup_singleton key, ?_⟩
      intro a ha b hb hab
      rw [List.mem_singleton.mp hb] at hab
      exact hnew (hab ▸ ha)
    · intro e he
      rw [Document.put, if_neg hkey] at he
      rcases List.mem_append.mp he with he | he
      · exact h.nodes e he
      · rw [List.mem_singleton.mp he]
        exact hnode

theorem Distinct.put_table (h : d.Distinct) (hd : d'.Distinct) (origin : Origin) :
    (d.put key (.table origin d')).Distinct :=
  h.put (Node.Distinct.table_iff.mpr hd)

theorem Distinct.put_tables (h : d.Distinct) {newest : Document} {older : List Document}
    (hnode : (Node.tables newest older).Distinct) (hd : d'.Distinct) :
    (d.put key (.tables d' older)).Distinct := by
  refine h.put (Node.Distinct.tables_iff.mpr ?_)
  have hall := Node.Distinct.tables_iff.mp hnode
  intro x hx
  rcases List.mem_cons.mp hx with rfl | hx
  · exact hd
  · exact hall x (List.mem_cons_of_mem _ hx)

theorem Distinct.insertAt {inDotted dottedKey : Bool} {v : Value} (hv : v.Distinct)
    {path : List String} (h : d.Distinct)
    (hd : Document.insertAt inDotted dottedKey v path d = some d') : d'.Distinct := by
  fun_induction Document.insertAt inDotted dottedKey v path d generalizing d' with
  | case1 | case2 | case3 | case6 | case9 => cases hd
  | case4 =>
    cases hd
    exact h.put (.leaf hv)
  | case5 _ _ _ _ _ _ _ ih =>
    obtain ⟨below, hbelow, hd⟩ := Option.bind_eq_some_iff.mp hd
    cases hd
    exact h.put_table (ih .empty hbelow) _
  | case7 _ _ _ _ _ _ _ _ _ hget ih =>
    obtain ⟨below, hbelow, hd⟩ := Option.bind_eq_some_iff.mp hd
    cases hd
    exact h.put_table (ih (Node.Distinct.table_iff.mp (h.get? hget)) hbelow) _
  | case8 _ _ _ _ _ _ _ _ hget ih =>
    obtain ⟨below, hbelow, hd⟩ := Option.bind_eq_some_iff.mp hd
    cases hd
    have hnode := h.get? hget
    exact h.put_tables hnode
      (ih (Node.Distinct.tables_iff.mp hnode _ List.mem_cons_self) hbelow)

theorem Distinct.insert {v : Value} (hv : v.Distinct) {path : List String} (h : d.Distinct)
    (hd : d.insert path v = some d') : d'.Distinct := h.insertAt hv hd

theorem Distinct.changeAt {change : Document → String → Option Document}
    (hchange : ∀ d key d', d.Distinct → change d key = some d' → d'.Distinct) {path : List String}
    (h : d.Distinct) (hd : Document.changeAt change path d = some d') : d'.Distinct := by
  fun_induction Document.changeAt change path d generalizing d' with
  | case1 | case6 => cases hd
  | case2 => exact hchange _ _ _ h hd
  | case3 _ _ _ _ _ ih =>
    obtain ⟨below, hbelow, hd⟩ := Option.bind_eq_some_iff.mp hd
    cases hd
    exact h.put_table (ih .empty hbelow) _
  | case4 _ _ _ _ _ _ hget ih =>
    obtain ⟨below, hbelow, hd⟩ := Option.bind_eq_some_iff.mp hd
    cases hd
    exact h.put_table (ih (Node.Distinct.table_iff.mp (h.get? hget)) hbelow) _
  | case5 _ _ _ _ _ _ hget ih =>
    obtain ⟨below, hbelow, hd⟩ := Option.bind_eq_some_iff.mp hd
    cases hd
    have hnode := h.get? hget
    exact h.put_tables hnode
      (ih (Node.Distinct.tables_iff.mp hnode _ List.mem_cons_self) hbelow)

theorem Distinct.openTable {path : List String} (h : d.Distinct)
    (hd : d.openTable path = some d') : d'.Distinct := by
  refine h.changeAt ?_ hd
  intro d key d' h hd
  split at hd
  · cases hd
    exact h.put_table .empty _
  · rename_i hget
    cases hd
    exact h.put_table (Node.Distinct.table_iff.mp (h.get? hget)) _
  · cases hd

theorem Distinct.openElement {path : List String} (h : d.Distinct)
    (hd : d.openElement path = some d') : d'.Distinct := by
  have hfirst {older : List Document} (hall : ∀ d ∈ older, Document.Distinct d) :
      (Node.tables [] older).Distinct := by
    refine Node.Distinct.tables_iff.mpr ?_
    intro x hx
    rcases List.mem_cons.mp hx with rfl | hx
    · exact .empty
    · exact hall x hx
  refine h.changeAt ?_ hd
  intro d key d' h hd
  split at hd
  · cases hd
    exact h.put (hfirst (by simp))
  · rename_i hget
    cases hd
    exact h.put (hfirst (Node.Distinct.tables_iff.mp (h.get? hget)))
  · cases hd

theorem Distinct.insertUnder {header path : List String} {v : Value} (hv : v.Distinct)
    (h : d.Distinct) (hd : d.insertUnder header path v = some d') : d'.Distinct := by
  unfold Document.insertUnder at hd
  split at hd
  · exact h.insert hv hd
  · refine h.changeAt ?_ hd
    intro d key d' h hd
    split at hd
    · rename_i hget
      obtain ⟨below, hbelow, hd⟩ := Option.bind_eq_some_iff.mp hd
      cases hd
      exact h.put_table ((Node.Distinct.table_iff.mp (h.get? hget)).insert hv hbelow) _
    · rename_i hget
      obtain ⟨below, hbelow, hd⟩ := Option.bind_eq_some_iff.mp hd
      cases hd
      have hnode := h.get? hget
      have hnewest := Node.Distinct.tables_iff.mp hnode _ List.mem_cons_self
      exact h.put_tables hnode (hnewest.insert hv hbelow)
    · cases hd

end Document

theorem freezeEntries_eq (d : Document) :
    freezeEntries d = d.map fun e => (e.1, e.2.freeze) := by
  induction d with
  | nil => rfl
  | cons e rest ih => rw [freezeEntries, ih, List.map_cons]

theorem freezeTables_eq (ds : List Document) :
    freezeTables ds = ds.map fun d => .table (freezeEntries d) := by
  induction ds with
  | nil => rfl
  | cons d rest ih => rw [freezeTables, ih, List.map_cons]

theorem Value.Distinct.of_entries {d : Document} (keys : (d.map Prod.fst).Nodup)
    (h : ∀ e ∈ d, e.2.freeze.Distinct) : (Value.table (freezeEntries d)).Distinct := by
  rw [freezeEntries_eq]
  refine .table ?_ ?_
  · rw [List.map_map]
    exact keys
  · intro x hx
    obtain ⟨e, he, rfl⟩ := List.mem_map.mp hx
    exact h e he

theorem Node.Distinct.freeze {n : Node} (h : n.Distinct) : n.freeze.Distinct := by
  induction h with
  | leaf hv => exact hv
  | table keys _ ih => exact .of_entries keys ih
  | @tables newest older keys _ ih =>
    rw [Node.freeze, freezeTables_eq]
    refine .array ?_
    intro v hv
    rcases List.mem_append.mp hv with hv | hv
    · obtain ⟨d, hd, rfl⟩ := List.mem_map.mp (List.mem_reverse.mp hv)
      have hmem : d ∈ newest :: older := List.mem_cons_of_mem _ hd
      exact .of_entries (keys d hmem) (ih d hmem)
    · rw [List.mem_singleton.mp hv]
      exact .of_entries (keys newest List.mem_cons_self) (ih newest List.mem_cons_self)

theorem Document.Distinct.freeze {d : Document} (h : d.Distinct) :
    (Value.table (freezeEntries d)).Distinct :=
  .of_entries h.keys fun e he => (h.nodes e he).freeze

theorem Scalar.read_distinct {cs : List Char} {v : Value} (h : Scalar.read cs = some v) :
    v.Distinct := by
  unfold Scalar.read at h
  split at h
  · cases h
    exact .boolean true
  split at h
  · cases h
    exact .boolean false
  split at h
  · cases h
    exact .integer _
  split at h
  · cases h
    exact .real _
  split at h
  · cases h
    exact .moment
  · cases h

theorem scalar_distinct {cs rest : Rest} {v : Value} (h : scalar cs = some (v, rest)) :
    v.Distinct := by
  obtain ⟨w, hw, hpair⟩ := Option.map_eq_some_iff.mp h
  cases hpair
  exact Scalar.read_distinct hw

/-- What the three readers of values give on this much fuel. -/
structure ReadsDistinct (fuel : Nat) : Prop where
  value : ∀ depth cs v rest, value fuel depth cs = some (v, rest) → v.Distinct
  items : ∀ depth cs vs rest, arrayItems fuel depth cs = some (vs, rest) → ∀ v ∈ vs, v.Distinct
  entries : ∀ depth d cs d' rest, inlineEntries fuel depth d cs = some (d', rest) →
    d.Distinct → d'.Distinct

theorem readsDistinct_zero : ReadsDistinct 0 where
  value depth cs v rest h := by simp [Toml.value] at h
  items depth cs vs rest h := by simp [arrayItems] at h
  entries depth d cs d' rest h := by simp [inlineEntries] at h

namespace ReadsDistinct

variable {fuel depth : Nat} {d d' : Document} {cs rest : Rest} {v : Value} {vs : List Value}
  (ih : ReadsDistinct fuel)

include ih

theorem value_succ (h : Toml.value (fuel + 1) depth cs = some (v, rest)) : v.Distinct := by
  cases depth with
  | zero => simp [Toml.value] at h
  | succ depth =>
    unfold Toml.value at h
    split at h
    · obtain ⟨r, -, hpair⟩ := Option.map_eq_some_iff.mp h
      cases hpair
      exact .string _
    · obtain ⟨r, -, hpair⟩ := Option.map_eq_some_iff.mp h
      cases hpair
      exact .string _
    · obtain ⟨⟨items, left⟩, hitems, hpair⟩ := Option.bind_eq_some_iff.mp h
      cases hpair
      exact .array (ih.items _ _ _ _ hitems)
    · obtain ⟨⟨entries, left⟩, hentries, hpair⟩ := Option.bind_eq_some_iff.mp h
      cases hpair
      exact (ih.entries _ _ _ _ _ hentries .empty).freeze
    · exact scalar_distinct h

theorem items_succ (h : arrayItems (fuel + 1) depth cs = some (vs, rest)) :
    ∀ v ∈ vs, v.Distinct := by
  unfold arrayItems at h
  obtain ⟨start, -, h⟩ := Option.bind_eq_some_iff.mp h
  split at h
  · cases h
    simp
  · obtain ⟨⟨item, left⟩, hitem, h⟩ := Option.bind_eq_some_iff.mp h
    have hfirst : item.Distinct := ih.value _ _ _ _ hitem
    obtain ⟨left', -, h⟩ := Option.bind_eq_some_iff.mp h
    split at h
    · obtain ⟨⟨items, last⟩, hitems, hpair⟩ := Option.bind_eq_some_iff.mp h
      cases hpair
      intro v hv
      rcases List.mem_cons.mp hv with rfl | hv
      · exact hfirst
      · exact ih.items _ _ _ _ hitems v hv
    · cases h
      intro v hv
      rw [List.mem_singleton.mp hv]
      exact hfirst
    · cases h

theorem entries_succ (h : inlineEntries (fuel + 1) depth d cs = some (d', rest))
    (hd : d.Distinct) : d'.Distinct := by
  unfold inlineEntries at h
  obtain ⟨start, -, h⟩ := Option.bind_eq_some_iff.mp h
  split at h
  · cases h
    exact hd
  · obtain ⟨⟨path, left⟩, -, h⟩ := Option.bind_eq_some_iff.mp h
    dsimp only at h
    split at h
    · obtain ⟨⟨v, left'⟩, hv, h⟩ := Option.bind_eq_some_iff.mp h
      obtain ⟨larger, hlarger, h⟩ := Option.bind_eq_some_iff.mp h
      have hmore : larger.Distinct := hd.insert (ih.value _ _ _ _ hv) hlarger
      obtain ⟨left'', -, h⟩ := Option.bind_eq_some_iff.mp h
      split at h
      · exact ih.entries _ _ _ _ _ h hmore
      · cases h
        exact hmore
      · cases h
    · cases h

theorem succ : ReadsDistinct (fuel + 1) where
  value _ _ _ _ h := ih.value_succ h
  items _ _ _ _ h := ih.items_succ h
  entries _ _ _ _ _ h := ih.entries_succ h

end ReadsDistinct

theorem readsDistinct (fuel : Nat) : ReadsDistinct fuel := by
  induction fuel with
  | zero => exact readsDistinct_zero
  | succ fuel ih => exact ih.succ

theorem pair_distinct {r r' : Reading} {cs rest : Rest} (h : pair r cs = some (r', rest))
    (hr : r.document.Distinct) : r'.document.Distinct := by
  unfold pair at h
  obtain ⟨⟨path, left⟩, -, h⟩ := Option.bind_eq_some_iff.mp h
  dsimp only at h
  split at h
  · obtain ⟨⟨v, left'⟩, hv, h⟩ := Option.bind_eq_some_iff.mp h
    obtain ⟨document, hdocument, h⟩ := Option.bind_eq_some_iff.mp h
    cases h
    exact hr.insertUnder ((readsDistinct _).value _ _ _ _ hv) hdocument
  · cases h

theorem header_distinct {r r' : Reading} {cs rest : Rest} (h : header r cs = some (r', rest))
    (hr : r.document.Distinct) : r'.document.Distinct := by
  unfold header at h
  obtain ⟨⟨path, left⟩, -, h⟩ := Option.bind_eq_some_iff.mp h
  dsimp only at h
  split at h
  · obtain ⟨document, hdocument, h⟩ := Option.bind_eq_some_iff.mp h
    cases h
    exact hr.openTable hdocument
  · cases h

theorem elementHeader_distinct {r r' : Reading} {cs rest : Rest}
    (h : elementHeader r cs = some (r', rest)) (hr : r.document.Distinct) :
    r'.document.Distinct := by
  unfold elementHeader at h
  obtain ⟨⟨path, left⟩, -, h⟩ := Option.bind_eq_some_iff.mp h
  dsimp only at h
  split at h
  · obtain ⟨document, hdocument, h⟩ := Option.bind_eq_some_iff.mp h
    cases h
    exact hr.openElement hdocument
  · cases h

theorem line_distinct {r r' : Reading} {cs rest : Rest} (h : line r cs = some (r', rest))
    (hr : r.document.Distinct) : r'.document.Distinct := by
  have hfinish {next : Reading} (left : Rest) (hnext : next.document.Distinct)
      (h : (do return (next, ← endLine left) : Option (Reading × Rest)) = some (r', rest)) :
      r'.document.Distinct := by
    obtain ⟨_, -, hpair⟩ := Option.bind_eq_some_iff.mp h
    cases hpair
    exact hnext
  unfold line at h
  dsimp only at h
  split at h
  · obtain ⟨⟨next, left⟩, hnext, h⟩ := Option.bind_eq_some_iff.mp h
    exact hfinish _ (elementHeader_distinct hnext hr) h
  · obtain ⟨⟨next, left⟩, hnext, h⟩ := Option.bind_eq_some_iff.mp h
    exact hfinish _ (header_distinct hnext hr) h
  · exact hfinish [] hr h
  · split at h
    · exact hfinish (_ :: _) hr h
    · obtain ⟨⟨next, left⟩, hnext, h⟩ := Option.bind_eq_some_iff.mp h
      exact hfinish _ (pair_distinct hnext hr) h

theorem lines_distinct {fuel : Nat} {r r' : Reading} {cs : Rest} (h : lines fuel r cs = some r')
    (hr : r.document.Distinct) : r'.document.Distinct := by
  induction fuel generalizing r cs with
  | zero => simp [lines] at h
  | succ fuel ih =>
    unfold lines at h
    split at h
    · cases h
    · cases h
      exact hr
    · rename_i heq _
      obtain rfl := Nat.succ.inj heq
      obtain ⟨⟨next, left⟩, hnext, h⟩ := Option.bind_eq_some_iff.mp h
      exact ih h (line_distinct hnext hr)

/-- A document is a table, and every table in it has each of its keys once. -/
theorem parse_distinct {text : String} {v : Value} (h : parse text = some v) :
    v.Distinct ∧ ∃ entries, v = .table entries := by
  obtain ⟨r, hr, rfl⟩ := Option.map_eq_some_iff.mp h
  exact ⟨(lines_distinct hr .empty).freeze, _, rfl⟩

end SmokeBench.Toml
