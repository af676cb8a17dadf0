import CourseDb.Execution.Executor

/-! # The tuples that a statement writes

What INSERT and UPDATE say about the values of a row, column by column. The
executors build these tuples, where the columns of the table have different
names, and the table storage fills up what it takes to be missing at their end.
-/

namespace CourseDb

variable {column : ColumnSchema} {value : Value} {seen : List ByteString}

namespace TableStorage

variable {schema : TableSchema} {tuple prepared : Tuple}

theorem prepareTupleForWrite_ok (h : prepareTupleForWrite schema tuple = .ok prepared) :
    tuple.length ≤ schema.length ∧ prepared = padTuple schema tuple := by
  unfold prepareTupleForWrite at h
  split_ifs at h with hempty hlong
  have hlength := Nat.le_of_not_lt hlong
  exact ⟨hlength, (prepareValues_ok h).2 hlength⟩

theorem length_padTuple (hlength : tuple.length ≤ schema.length) :
    (padTuple schema tuple).length = schema.length := by
  rw [padTuple, List.length_append, List.length_map, List.length_drop]
  omega

theorem padTuple_of_length (hlength : tuple.length = schema.length) :
    padTuple schema tuple = tuple := by
  rw [padTuple, hlength, List.drop_length, List.map_nil, List.append_nil]

end TableStorage

section Names

variable {schema : TableSchema} {name : ByteString}

theorem CatalogManager.validateColumns_nodup (h : validateColumns seen schema = .ok ()) :
    (schema.map ColumnSchema.name).Nodup ∧ ∀ column ∈ schema, column.name ∉ seen := by
  induction schema generalizing seen with
  | nil => exact ⟨List.nodup_nil, by simp⟩
  | cons column columns ih =>
    obtain ⟨⟨⟩, -, h₁⟩ := except_bind_eq_ok.mp h
    split_ifs at h₁ with hseen
    · cases h₁
    · obtain ⟨hnodup, hnew⟩ := ih h₁
      refine ⟨List.nodup_cons.mpr ⟨fun hmem => ?_, hnodup⟩, ?_⟩
      · obtain ⟨other, hother, heq⟩ := List.mem_map.mp hmem
        exact hnew other hother (heq ▸ List.mem_cons_self)
      · refine List.forall_mem_cons.mpr ⟨hseen, fun other hother hmem => ?_⟩
        exact hnew other hother (List.mem_cons_of_mem _ hmem)

/-- The columns of a table that the catalog knows have different names. -/
theorem CatalogManager.getTable_nodup {rootDir db tbl : ByteString} {d : Disk}
    {desc : TableDescriptor} (h : getTable rootDir db tbl d = .ok desc) :
    (desc.schema.map ColumnSchema.name).Nodup := by
  have hread : Disk.readTableMetaFile (tableMetaPath rootDir db tbl) d = .ok desc := (getTable_ok.mp h).2
  unfold Disk.readTableMetaFile at hread
  split at hread <;> try cases hread
  obtain ⟨⟨⟩, hvalid, hdesc⟩ := except_bind_eq_ok.mp hread
  cases hdesc
  obtain ⟨⟨⟩, -, hvalid₁⟩ := except_bind_eq_ok.mp hvalid
  obtain ⟨⟨⟩, -, hvalid₂⟩ := except_bind_eq_ok.mp hvalid₁
  obtain ⟨⟨⟩, hschema, -⟩ := except_bind_eq_ok.mp hvalid₂
  unfold validateTableSchema at hschema
  split_ifs at hschema
  · cases hschema
  · exact (validateColumns_nodup hschema).1

theorem TableSchema.findColumn_name {i : ℕ} (h : schema.findColumn name = some i) :
    ∃ column, schema[i]? = some column ∧ column.name = name := by
  obtain ⟨hlt, hname, -⟩ := List.findIdx?_eq_some_iff_getElem.mp h
  exact ⟨schema[i], List.getElem?_eq_getElem hlt, by simpa using hname⟩

theorem TableSchema.findColumn_unique (hnodup : (schema.map ColumnSchema.name).Nodup) {i j : ℕ}
    (h : schema.findColumn name = some i) (hcolumn : schema[j]? = some column)
    (hname : column.name = name) : i = j := by
  obtain ⟨first, hfirst, hfirstName⟩ := findColumn_name h
  refine (List.getElem?_inj ?_ hnodup).mp ?_
  · rw [List.length_map]
    exact findColumn_lt h
  · rw [List.getElem?_map, List.getElem?_map, hfirst, hcolumn, Option.map_some, Option.map_some,
      hfirstName, hname]

end Names

namespace Executor

variable {schema : TableSchema} {name : ByteString} {tuple : Tuple}

section Insert

variable {pairs : List (ByteString × Value)}

/-- The value that INSERT gives to a column: the one in the list unless it is NULL,
else the default. -/
def givenValue (columns : List ByteString) (values : List Value) (column : ColumnSchema) : Value :=
  let given := ((columns.zip values).lookup column.name).getD .null
  if given.isNull then column.defaultValue.getD .null else given

/-- The row that INSERT makes of a value list. -/
def givenTuple (schema : TableSchema) (columns : List ByteString) (values : List Value) : Tuple :=
  schema.map (givenValue columns values)

theorem assignColumns_unseen {out out' : Tuple} (h : assignColumns schema seen pairs out = .ok out')
    (hname : name ∈ seen) : pairs.lookup name = none := by
  induction pairs generalizing seen out with
  | nil => rfl
  | cons pair pairs ih =>
    obtain ⟨other, value⟩ := pair
    unfold assignColumns at h
    split_ifs at h with hseen
    have hne : name ≠ other := by
      rintro rfl
      exact hseen hname
    cases hcolumn : schema.findColumn other with
    | none =>
      rw [hcolumn] at h
      cases h
    | some column =>
      rw [hcolumn] at h
      rw [List.lookup_cons, beq_eq_false_iff_ne.mpr hne]
      exact ih h (List.mem_cons_of_mem _ hname)

theorem assignColumns_ok (hnodup : (schema.map ColumnSchema.name).Nodup) {out out' : Tuple}
    (hlength : out.length = schema.length) (h : assignColumns schema seen pairs out = .ok out') :
    out'.length = schema.length ∧ ∀ (i : ℕ) (column : ColumnSchema), schema[i]? = some column →
      out'[i]? = (pairs.lookup column.name).or out[i]? := by
  induction pairs generalizing seen out with
  | nil =>
    cases h
    exact ⟨hlength, fun i column _ => rfl⟩
  | cons pair pairs ih =>
    obtain ⟨name, value⟩ := pair
    unfold assignColumns at h
    split_ifs at h with hseen
    cases hcolumn : schema.findColumn name with
    | none =>
      rw [hcolumn] at h
      cases h
    | some position =>
      rw [hcolumn] at h
      obtain ⟨hlength', hvalues⟩ := ih (by rw [List.length_set, hlength]) h
      refine ⟨hlength', fun i column hi => ?_⟩
      rw [hvalues i column hi, List.lookup_cons]
      by_cases hname : column.name = name
      · obtain rfl := TableSchema.findColumn_unique hnodup hcolumn hi hname
        have hlt : position < out.length := hlength ▸ TableSchema.findColumn_lt hcolumn
        rw [hname, assignColumns_unseen h List.mem_cons_self, beq_self_eq_true,
          List.getElem?_set_self hlt]
        rfl
      · have hne : position ≠ i := by
          rintro rfl
          obtain ⟨first, hfirst, hfirstName⟩ := TableSchema.findColumn_name hcolumn
          rw [hi] at hfirst
          cases hfirst
          exact hname hfirstName
        rw [beq_eq_false_iff_ne.mpr hname, List.getElem?_set_ne hne]

theorem fillDefaults_ok {values out : Tuple} (hlength : values.length = schema.length)
    (h : fillDefaults schema values = .ok out) :
    out = List.zipWith (fun column value =>
      if value.isNull then column.defaultValue.getD value else value) schema values := by
  induction schema generalizing values out with
  | nil =>
    cases h
    rfl
  | cons column columns ih =>
    cases values with
    | nil => cases hlength
    | cons value values =>
      unfold fillDefaults at h
      dsimp only at h
      split_ifs at h <;> try cases h
      all_goals
        obtain ⟨rest, hrest, h₁⟩ := except_bind_eq_ok.mp h
        cases h₁
        rw [ih (Nat.succ.inj hlength) hrest, List.zipWith_cons_cons]
        simp [*]

/-- The tuple that is handed to the engine is the one that the statement gives. -/
theorem buildTuple_ok (hnodup : (schema.map ColumnSchema.name).Nodup) {columns : List ByteString}
    {values : List Value} (h : buildTuple schema columns values = .ok tuple) :
    tuple = givenTuple schema columns values := by
  unfold buildTuple at h
  split_ifs at h with hcount
  obtain ⟨assigned, hassign, hfill⟩ := except_bind_eq_ok.mp h
  obtain ⟨hlength, hvalues⟩ := assignColumns_ok hnodup (by rw [List.length_replicate]) hassign
  have hassigned : assigned = schema.map fun column =>
      ((columns.zip values).lookup column.name).getD .null := by
    refine List.ext_getElem? fun i => ?_
    rw [List.getElem?_map]
    cases hi : schema[i]? with
    | none =>
      rw [List.getElem?_eq_none_iff] at hi
      exact List.getElem?_eq_none_iff.mpr (hlength.trans_le hi)
    | some column =>
      obtain ⟨hlt, -⟩ := List.getElem?_eq_some_iff.mp hi
      rw [hvalues i column hi, List.getElem?_replicate_of_lt hlt, Option.map_some]
      cases (columns.zip values).lookup column.name <;> rfl
  rw [fillDefaults_ok hlength hfill, hassigned, List.zipWith_map_right, List.zipWith_self]
  refine List.map_congr_left fun column _ => ?_
  unfold givenValue
  cases hgiven : (columns.zip values).lookup column.name with
  | none => rfl
  | some value => cases value <;> rfl

end Insert

/-- The tuple in which each column has the last value that is assigned to it. -/
def assignedTuple (schema : TableSchema) (assignments : List (ByteString × Value))
    (tuple : Tuple) : Tuple :=
  tuple.mapIdx fun i value =>
    (schema[i]?.bind fun column => assignments.reverse.lookup column.name).getD value

theorem length_assignedTuple (schema : TableSchema) (assignments : List (ByteString × Value))
    (tuple : Tuple) : (assignedTuple schema assignments tuple).length = tuple.length :=
  List.length_mapIdx

theorem assignedTuple_nil (schema : TableSchema) (tuple : Tuple) :
    assignedTuple schema [] tuple = tuple := by
  refine List.ext_getElem? fun i => ?_
  rw [assignedTuple, List.getElem?_mapIdx]
  cases tuple[i]? with
  | none => rfl
  | some value => cases schema[i]? <;> rfl

theorem assignedTuple_cons (hnodup : (schema.map ColumnSchema.name).Nodup) {position : ℕ}
    (hcolumn : schema.findColumn name = some position) (assignments : List (ByteString × Value))
    (hlt : position < tuple.length) : assignedTuple schema ((name, value) :: assignments) tuple =
      assignedTuple schema assignments (tuple.set position value) := by
  obtain ⟨column, hposition, hname⟩ := TableSchema.findColumn_name hcolumn
  refine List.ext_getElem? fun i => ?_
  rw [assignedTuple, assignedTuple, List.getElem?_mapIdx, List.getElem?_mapIdx, List.reverse_cons]
  by_cases hi : position = i
  · subst hi
    rw [List.getElem?_set_self hlt, List.getElem?_eq_getElem hlt, hposition]
    simp only [Option.map_some, Option.bind_some, List.lookup_append, hname]
    cases assignments.reverse.lookup name <;> simp
  · rw [List.getElem?_set_ne hi]
    cases hother : schema[i]? with
    | none => rfl
    | some other =>
      have hne : other.name ≠ name := fun heq =>
        hi (TableSchema.findColumn_unique hnodup hcolumn hother heq)
      simp only [Option.bind_some, List.lookup_append, List.lookup_cons,
        beq_eq_false_iff_ne.mpr hne, List.lookup_nil, Option.or_none]

theorem assign_ok (hnodup : (schema.map ColumnSchema.name).Nodup)
    {assignments : List (ByteString × Value)} {tuple' : Tuple}
    (h : assign schema assignments tuple = .ok tuple') :
    tuple' = assignedTuple schema assignments tuple := by
  induction assignments generalizing tuple with
  | nil =>
    cases h
    exact (assignedTuple_nil schema tuple').symm
  | cons assignment assignments ih =>
    obtain ⟨name, value⟩ := assignment
    unfold assign at h
    split at h
    case h_1 position column hcolumn _ =>
      split_ifs at h with hnull hlt
      rw [assignedTuple_cons hnodup hcolumn assignments hlt]
      exact ih h
    case h_2 => cases h

end Executor

end CourseDb
