import Mathlib
import ColumnDb.Proofs.SelectRows
import ColumnDb.Proofs.KeyRule

/-!
# Reopening a collection

Disposing of a collection flushes and closes every column and writes the metadata side file;
opening its directory again replays the recorded declarations, in order, through the rule that
declared them (`reopen`). The replay marks as key exactly the recorded key, and the key rule of
`ColumnDb.Proofs.KeyRule` chooses that column again, although an earlier orderable column holds
the key for a moment. So after any run of calls that all succeed, a reopening that succeeds gives
the same key and the same definitions (`runEvents_reopen_keeps_schema`), provided the metadata
file reads back and its text reads as the schema written.

Row data need not come back. Each column keeps its rows in files named after it: `c.gather`, and
for a text column `c` also `c_text.gather` for the texts' bytes. A column named `c_text` beside a
text column `c` therefore shares a file with it. When the tree file of `c_text` was written before
the text column came, the text column opens on the same bytes, and its blobs land on slots the
tree file reads back as nodes once the collection is reopened: a row never given a value in
`c_text` then answers one, although the key and the declarations come back as they were
(`reopen_reads_value_never_written`). The same sharing can make the reopening itself fail, when
the latest id the blob file wrote last lies below a link of the tree file's free chain.
-/

set_option autoImplicit false

namespace ColumnDb

namespace Collection

/-- Disposes of the collection and opens its directory again with the same settings. A failed
opening leaves the disposed collection in place. -/
def reopen : CollectionOp Unit := do
  dispose
  let s ← get
  let c ← MonadExcept.ofExcept (Collection.open s.1 s.2.database s.2.name s.2.settings).1
  set ((Collection.open s.1 s.2.database s.2.name s.2.settings).2, c)

/-- The rows of every declared column for every row of the key column. -/
def readAll : CollectionOp (List Row) := do
  select (← query "") []

set_option synthInstance.maxSize 400 in
/-- The new collection `db/items` with texts kept in 38-byte slots: declare an integer key `k` and
an integer column `a_text`, add the row `k = 1, a_text = 5` and delete it, declare a text column
`a`, and add the rows `k = 7` with a 30-byte text in `a` and `k = 8`. Its rows read back as
added. After reopening, the key and the declarations are the same, but the second row answers
`a_text = 0`: the text's second slot was read as the value of node 2 of the tree file of
`a_text`, the file the text column keeps its bytes in. -/
theorem reopen_reads_value_never_written :
    Collection.open {} "db" "items" ⟨"data", 100, 38, true⟩ =
        (.ok ⟨"db", "items", "data/db/items", ⟨"data", 100, 38, true⟩, none, #[], false⟩,
          { dirs := ["data", "data/db", "data/db/items"] }) ∧
      (do
        declareColumn ⟨"k", .int .i64, 0, false⟩
        declareColumn ⟨"a_text", .int .i64, 0, false⟩
        discard (insert fun n => [("k", .int .i64 1), ("a_text", .int .i64 5)].lookup n)
        discard (delete [1])
        declareColumn ⟨"a", .text, 0, false⟩
        discard (insert fun n =>
          [("k", .int .i64 7), ("a", .text "abcdefghijklmnopqrstuv\x08\x00\x00\x00wxyz")].lookup n)
        discard (insert fun n => [("k", .int .i64 8)].lookup n)
        let before ← readAll
        let schema := (← get).2.schema
        reopen
        let after ← readAll
        pure (before, schema, after, (← get).2.schema) :
          CollectionOp (List Row × (Option String × Array ColumnDef) × List Row ×
            (Option String × Array ColumnDef))).run'
        ({ dirs := ["data", "data/db", "data/db/items"] },
          ⟨"db", "items", "data/db/items", ⟨"data", 100, 38, true⟩, none, #[], false⟩) =
      some ([[("a", .text "abcdefghijklmnopqrstuv\x08\x00\x00\x00wxyz"), ("k", .int .i64 7)], [("k", .int .i64 8)]],
        (some "k", #[⟨"k", .int .i64, 0, false⟩, ⟨"a_text", .int .i64, 0, false⟩, ⟨"a", .text, 0, false⟩]),
        [[("a", .text "abcdefghijklmnopqrstuv\x08\x00\x00\x00wxyz"), ("k", .int .i64 7)],
          [("a_text", .int .i64 0), ("k", .int .i64 8)]],
        (some "k", #[⟨"k", .int .i64, 0, false⟩, ⟨"a_text", .int .i64, 0, false⟩, ⟨"a", .text, 0, false⟩])) :=
  ⟨by with_unfolding_all rfl, by decide +kernel⟩

end Collection

/-! ## The metadata file -/

namespace Disk

theorem contents_setContents {d : Disk} {s : Nat} (bs : List UInt8) (hs : s < d.stores.size) :
    (d.setContents s bs).contents s = bs := by
  simp [setContents, hs, contents, bytesOf]

/-- A file written whole reads back as written, when its store exists. -/
theorem fileBytes?_putFile {d d' : Disk} {p : String} {bs : List UInt8} (h : d.putFile p bs = .ok d')
    (hs : ∀ s, d'.fileStore? p = some s → s < d'.stores.size) : d'.fileBytes? p = some bs := by
  unfold putFile at h
  cases ho : d.openFile p with
  | error e => simp [ho, bind, Except.bind] at h
  | ok r =>
    obtain ⟨s, d₁⟩ := r
    simp only [ho, bind, Except.bind, pure, Except.pure, Except.ok.injEq] at h
    subst h
    have hstore : (d₁.setContents s bs).fileStore? p = some s := by
      simp only [fileStore?, files_setContents]
      exact fileStore?_openFile ho
    have hlt : s < d₁.stores.size := by simpa using hs s hstore
    rw [fileBytes?, hstore, Option.map_some, contents_setContents bs hlt]

/-- Creating directories leaves every file as it was. -/
theorem fileBytes?_makeDirs {d d' : Disk} {dir : String} (h : d.makeDirs dir = .ok d') (p : String) :
    d'.fileBytes? p = d.fileBytes? p := by
  unfold makeDirs createDirs at h
  split at h
  next => cases h
  next =>
    cases h
    rfl

end Disk

namespace Collection

open ColumnDb.Disk CollectionEvent

/-- The metadata records the schema, each declaration marked whether it is the key. -/
theorem definitions_eq (c : Collection) :
    c.definitions = c.schema.2.toList.map fun d => { d with key := c.schema.1 == some d.name } := by
  simp [definitions, schema]

theorem metadata_of_schema {c c' : Collection} (h : c'.schema = c.schema) : c'.metadata = c.metadata := by
  rw [metadata, metadata, definitions_eq, definitions_eq, h, key_of_schema h]

/-- A metadata file holding the bytes of a text that reads as `m` is read as `m`. -/
theorem readMetadata_of_fileBytes {d : Disk} {path text : String} {m : Metadata}
    (hbytes : d.fileBytes? path = some (Text.utf8Bytes text)) (hread : Metadata.read text = .ok m) :
    readMetadata d path = .ok (some m) := by
  simp [readMetadata, hbytes, Text.decodeUtf8_utf8Bytes, hread]

/-- Disposing of an open collection keeps its schema and directory, and ends by writing its
metadata file. -/
theorem dispose_ok {d d' : Disk} {c c' : Collection} {a : Unit} (hopen : c.disposed = false)
    (h : dispose (d, c) = .ok a (d', c')) :
    c'.schema = c.schema ∧ c'.directory = c.directory ∧
      ∃ d₂ : Disk, d₂.putFile c.metadataPath (Text.utf8Bytes c.metadata.render) = .ok d' := by
  obtain ⟨_, s₁, hget, hrest⟩ := ok_of_bind h
  cases hget
  rw [if_neg (by simp [hopen])] at hrest
  -- marked disposed, every column disposed of, then the metadata written
  obtain ⟨_, s₂, hmark, hrest⟩ := ok_of_bind hrest
  cases hmark
  obtain ⟨_, s₃, hget', hrest⟩ := ok_of_bind hrest
  cases hget'
  obtain ⟨_, ⟨d₄, c₄⟩, hloop, hwrite⟩ := ok_of_bind hrest
  have hkeeps : ({ c with disposed := true } : Collection).Keeps c₄ :=
    StoresOnly.of_ok
      (StoresOnly.forIn _ _ fun _ _ => StoresOnly.bind (StoresOnly.onColumn _ _) fun _ => StoresOnly.pure _) hloop
  obtain ⟨hput, hc'⟩ := writeMetadata_put hwrite
  rw [hc']
  have hdir : c₄.directory = c.directory := by rw [← hkeeps.rest]
  have hsch : c₄.schema = c.schema := hkeeps.schema
  refine ⟨hsch, hdir, d₄, ?_⟩
  rwa [metadataPath, hdir, metadata_of_schema hsch] at hput

/-- Replaying declarations changes the schema by each in turn. -/
theorem replay_ok (cols : List ColumnDef) (f : ColumnDef → ColumnDef) {s s' : Disk × Collection}
    (h : (cols.forM fun col => discard (declareIn (f col))) s = .ok () s') :
    s'.2.schema = (cols.map f).foldl declareSchema s.2.schema := by
  induction cols generalizing s with
  | nil =>
    cases h
    rfl
  | cons col cols ih =>
    have h' : (discard (declareIn (f col)) >>= fun _ => cols.forM fun col => discard (declareIn (f col))) s =
        .ok () s' := h
    obtain ⟨_, s₁, hstep, hrest⟩ := ok_of_bind h'
    obtain ⟨_, hdecl⟩ := ok_of_discard hstep
    rw [ih hrest, (declareIn_ok hdecl).1]
    rfl

/-- Opening a directory whose metadata file reads as `m` replays `m`'s declarations, each marked
whether `m` names it as key, on a new collection. -/
theorem open_replays {d d' : Disk} {db nm : String} {s : Settings} {c : Collection} {m : Metadata}
    (hopen : Collection.open d db nm s = (.ok c, d'))
    (hmeta : ∀ d₁, d.makeDirs (s.collectionDirectory db nm) = .ok d₁ →
      readMetadata d₁ (joinPath (s.collectionDirectory db nm) metadataFile) = .ok (some m)) :
    ∃ d₁, (m.columns.forM fun col => discard (declareIn { col with key := m.key == some col.name }))
      (d₁, ⟨db, nm, s.collectionDirectory db nm, s, none, #[], false⟩) = .ok () (d', c) := by
  unfold Collection.open at hopen
  dsimp only at hopen
  split at hopen
  next => cases hopen
  next =>
    split at hopen
    next => cases hopen
    next d₁ hd₁ =>
      simp only [metadataPath, hmeta d₁ hd₁] at hopen
      split at hopen
      next d₂ c₂ hrun =>
        simp only [Prod.mk.injEq, Except.ok.injEq] at hopen
        obtain ⟨rfl, rfl⟩ := hopen
        exact ⟨d₁, hrun⟩
      next => cases hopen

/-- On a new collection, after any run of calls that all succeed, the key is the one the key rule
chooses from the run's new declarations: the last declared as key, or else the first orderable
one; and the columns are those declarations, unmarked, in order. Disposing of the collection and
opening its directory again with the same settings, when both succeed, gives the same key and
the same definitions: the opening replays the recorded declarations, each marked whether it is
the recorded key, through the rule that made them. This needs the metadata file to read back
(its store exists) and its text to read as the schema written. -/
theorem runEvents_reopen_keeps_schema {es : List CollectionEvent} {db nm : String} {s : Settings}
    {d₀ d d' d'' : Disk} {c c' c'' : Collection}
    (hrun : runEvents es (d₀, ⟨db, nm, s.collectionDirectory db nm, s, none, #[], false⟩) = .ok () (d, c))
    (hdispose : dispose (d, c) = .ok () (d', c'))
    (hstored : ∀ st ∈ d'.fileStore? c.metadataPath, st < d'.stores.size)
    (hread : Metadata.read c.metadata.render = .ok ⟨c.key, c.columns.toList.map (·.declared)⟩)
    (hopen : Collection.open d' db nm s = (.ok c'', d'')) :
    c.key = keyRule (freshFrom [] (es.filterMap declaration?)) ∧
      c.columns.toList.map (·.declared) =
        (freshFrom [] (es.filterMap declaration?)).map (fun d => { d with key := false }) ∧
      c''.key = c.key ∧ c''.definitions = c.definitions := by
  obtain ⟨hkey, hcols, hplace⟩ := runEvents_key_rule es rfl rfl hrun
  refine ⟨hkey, hcols, ?_⟩
  -- the collection is still open, in the directory it was opened in
  have hdir : c.directory = s.collectionDirectory db nm := congrArg Collection.directory hplace
  have hlive : c.disposed = false := congrArg Collection.disposed hplace
  -- disposing writes the metadata, which reads back, and opening replays it
  obtain ⟨-, -, d₂, hput⟩ := dispose_ok hlive hdispose
  have hbytes := Disk.fileBytes?_putFile hput hstored
  obtain ⟨d₁, hreplay⟩ := open_replays hopen fun d₃ hd₃ =>
    readMetadata_of_fileBytes (by rw [Disk.fileBytes?_makeDirs hd₃, ← hdir]; exact hbytes) hread
  have hsch := replay_ok _ _ hreplay
  -- the replay declares the run's new declarations, each marked whether the rule chose it, and the
  -- rule chooses the same column again
  set F := freshFrom [] (es.filterMap declaration?)
  have hmarked : ((c.columns.toList.map (·.declared)).map fun col => { col with key := c.key == some col.name }) =
      F.map fun d => { d with key := keyRule F == some d.name } := by
    rw [hcols, hkey, List.map_map]
    rfl
  have hnames : ((F.map fun d => { d with key := keyRule F == some d.name }).map (·.name)).Nodup := by
    simpa [List.map_map, Function.comp_def] using (freshFrom_names [] (es.filterMap declaration?)).1
  have hstart : (⟨db, nm, s.collectionDirectory db nm, s, none, #[], false⟩ : Collection).schema =
      (keyRule [], (([] : List ColumnDef).map fun d => { d with key := false }).toArray) := by
    simp [schema]
  dsimp only at hsch
  rw [hmarked, hstart, foldl_declareSchema, List.map_nil, List.nil_append,
    freshFrom_of_nodup [] _ hnames fun _ _ h => List.not_mem_nil h, keyRule_mark] at hsch
  have hsch' : c''.schema = c.schema := by
    rw [hsch, Collection.schema, hkey]
    congr 1
    apply Array.ext'
    simp [List.map_map, Function.comp_def, hcols]
  exact ⟨key_of_schema hsch', by rw [definitions_eq, definitions_eq, hsch']⟩

/-- An opening that succeeds answers the collection it found. -/
theorem open_eq_ok {d : Disk} {db nm : String} {s : Settings} (h : (Collection.open d db nm s).1.isOk = true) :
    Collection.open d db nm s =
      (.ok ((Collection.open d db nm s).1.toOption.getD default), (Collection.open d db nm s).2) := by
  cases ho : (Collection.open d db nm s).1 with
  | ok c => exact Prod.ext (by simp [ho, Except.toOption]) rfl
  | error e => rw [ho] at h; cases h

/-- The new collection `db/items` declares a text column, an integer column `a` (the first
orderable one, so the key), an integer column `b` marked as key (which takes the key over), and
`a` again marked as key (a declared name, which changes nothing); then it adds a row and selects.
Reopened, its key is `b` again: the replay makes `a` the key for a moment, then `b`. -/
theorem runEvents_reopen_keeps_schema_marked_late :
    ∃ d c d' c' d'' c'',
      runEvents [.declare ⟨"note", .text, 0, false⟩, .declare ⟨"a", .int .i64, 0, false⟩,
          .declare ⟨"b", .int .i64, 0, true⟩, .declare ⟨"a", .int .i64, 0, true⟩,
          .insert (fun n => [("a", .int .i64 1), ("b", .int .i64 2)].lookup n),
          .select "" []]
        ({ dirs := ["data", "data/db", "data/db/items"] },
          ⟨"db", "items", Settings.collectionDirectory ⟨"data", 100, 38, true⟩ "db" "items",
            ⟨"data", 100, 38, true⟩, none, #[], false⟩) = .ok () (d, c) ∧
      dispose (d, c) = .ok () (d', c') ∧
      (∀ st ∈ d'.fileStore? c.metadataPath, st < d'.stores.size) ∧
      Metadata.read c.metadata.render = .ok ⟨c.key, c.columns.toList.map (·.declared)⟩ ∧
      Collection.open d' "db" "items" ⟨"data", 100, 38, true⟩ = (.ok c'', d'') ∧
      c.key = keyRule (freshFrom [] ([.declare ⟨"note", .text, 0, false⟩, .declare ⟨"a", .int .i64, 0, false⟩,
          .declare ⟨"b", .int .i64, 0, true⟩, .declare ⟨"a", .int .i64, 0, true⟩,
          .insert (fun n => [("a", .int .i64 1), ("b", .int .i64 2)].lookup n),
          .select "" []].filterMap declaration?)) ∧
      c.columns.toList.map (·.declared) =
        (freshFrom [] ([.declare ⟨"note", .text, 0, false⟩, .declare ⟨"a", .int .i64, 0, false⟩,
          .declare ⟨"b", .int .i64, 0, true⟩, .declare ⟨"a", .int .i64, 0, true⟩,
          .insert (fun n => [("a", .int .i64 1), ("b", .int .i64 2)].lookup n),
          .select "" []].filterMap declaration?)).map (fun d => { d with key := false }) ∧
      c''.key = c.key ∧ c''.definitions = c.definitions := by
  refine ⟨?d, ?c, ?d', ?c', ?d'', ?c'', ?run, ?dispose, ?stored, ?read, ?reopen,
    runEvents_reopen_keeps_schema ?run ?dispose ?stored ?read ?reopen⟩
  case run =>
    refine eq_ok_of_run' (x := runEvents _) ?_
    decide +kernel
  case dispose =>
    refine eq_ok_of_run' (x := dispose) ?_
    decide +kernel
  case stored => decide +kernel
  case read => decide +kernel
  case reopen =>
    refine open_eq_ok ?_
    decide +kernel

end Collection

end ColumnDb
