import Transcode.Toml.Basic

/-!
# Building tables

A document is a sequence of statements. A header opens a table, which the assignments after it fill;
no table is opened twice, and no key is assigned twice. What headers define cannot be extended by
dotted keys, and what dotted keys or braces define cannot be extended by headers.
-/

namespace Transcode.Toml

/-- A line of a document. -/
inductive Statement where
  /-- `[outer.key]` -/
  | header (outer : List String) (key : String)
  /-- `[[outer.key]]` -/
  | arrayHeader (outer : List String) (key : String)
  /-- `outer.key = value` -/
  | assign (outer : List String) (key : String) (value : Toml)

/-- Works on the table at the end of a path and answers what the work answers. Missing tables on the
way are created; of tables under one header the last one is meant. -/
def atPath? {α : Type} (byDots : Bool) (work : TableStyle → Entries → Option (Entries × α)) :
    List String → TableStyle → Entries → Option (Entries × α)
  | [], style, entries => work style entries
  | key :: path, _, entries =>
    match find? key entries with
    | none =>
      let style : TableStyle := if byDots then .dotted else .implied
      (atPath? byDots work path style []).map fun (inner, a) =>
        (put key (.table style inner) entries, a)
    | some (.table style inner) =>
      if style = .inline || (byDots && style = .header) then none
      else (atPath? byDots work path style inner).map fun (inner, a) =>
        (put key (.table style inner) entries, a)
    | some (.tables items) =>
      match items.getLast? with
      | none => none
      | some inner =>
        (atPath? byDots work path .header inner).map fun (inner, a) =>
          (put key (.tables (items.dropLast ++ [inner])) entries, a)
    | some _ => none

/-- Assigns a value to a new key. A dotted key ends in a table made by dotted keys, any other key in
one that is not. -/
def assign? (entries : Entries) (outer : List String) (key : String) (value : Toml) :
    Option Entries :=
  let work (style : TableStyle) (entries : Entries) : Option (Entries × Unit) :=
    if (style == .dotted) == outer.isEmpty || (find? key entries).isSome then none
    else some (put key value entries, ())
  (atPath? true work outer .header entries).map (·.1)

/-- The table of assignments between braces. -/
def inlineTable? (assignments : List (List String × String × Toml)) : Option Toml :=
  (assignments.foldlM (fun entries (outer, key, value) => assign? entries outer key value) []).map
    (.table .inline)

/-- The table that is being filled, and where it belongs. -/
structure Section where
  outer : List String
  key : String
  repeated : Bool
  entries : Entries

/-- A document up to some statement: the tables that are finished, and the one being filled. Before
the first header that is the document itself. -/
structure Assembly where
  root : Entries := []
  current : Option Section := none

namespace Assembly

def close? (a : Assembly) : Option Entries :=
  match a.current with
  | none => some a.root
  | some s =>
    let work (_ : TableStyle) (entries : Entries) : Option (Entries × Unit) :=
      if s.repeated then
        match find? s.key entries with
        | none => some (put s.key (.tables [s.entries]) entries, ())
        | some (.tables items) => some (put s.key (.tables (items ++ [s.entries])) entries, ())
        | some _ => none
      else some (put s.key (.table .header s.entries) entries, ())
    (atPath? false work s.outer .header a.root).map (·.1)

/-- Opens a table. One that is only implied by other headers keeps what it has. -/
def open? (root : Entries) (outer : List String) (key : String) : Option Assembly :=
  let work (_ : TableStyle) (entries : Entries) : Option (Entries × Entries) :=
    match find? key entries with
    | none => some (entries, [])
    | some (.table .implied inner) => some (drop key entries, inner)
    | some _ => none
  (atPath? false work outer .header root).map fun (root, inner) =>
    ⟨root, some ⟨outer, key, false, inner⟩⟩

def openRepeated? (root : Entries) (outer : List String) (key : String) : Option Assembly :=
  let work (_ : TableStyle) (entries : Entries) : Option (Entries × Unit) :=
    match find? key entries with
    | none | some (.tables _) => some (entries, ())
    | some _ => none
  (atPath? false work outer .header root).map fun (root, _) =>
    ⟨root, some ⟨outer, key, true, []⟩⟩

def take? (a : Assembly) : Statement → Option Assembly
  | .header outer key => a.close?.bind fun root => open? root outer key
  | .arrayHeader outer key => a.close?.bind fun root => openRepeated? root outer key
  | .assign outer key value =>
    match a.current with
    | none => (assign? a.root outer key value).map fun root => { a with root := root }
    | some s =>
      (assign? s.entries outer key value).map fun entries =>
        { a with current := some { s with entries := entries } }

end Assembly

def ofStatements? (statements : List Statement) : Option Entries :=
  (statements.foldlM Assembly.take? {}).bind Assembly.close?

end Transcode.Toml
