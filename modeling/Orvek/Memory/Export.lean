import Orvek.Lib.Paging
import Orvek.Memory.Store
import Mathlib.Data.Prod.Lex
import Mathlib.Data.String.Basic

/-!
# Exporting memories page by page

A server hands out the memories of an ordered store in pages, and leaves out those that look like
secrets.  It asks the store again, for as many records as are still missing, until the last record
that it shows is the last one that it has read.

* `exportVisiblePage`     one page of the server, and `clientExportPage`, the same loop in the client;
* `exportAll`             all pages of a store, of which nothing is assumed;
* `OrderedStore`          a store that hands out its records in order;
* `rawRead`               what one request reads of such a store;
* `exportLoop_ordered`    the loop returns what it is to show of a beginning of the rest;
* `memory_export_lossless`   following the cursors shows every visible record once, in order.
-/

set_option linter.unusedSectionVars false

namespace Orvek
open Checks Json Paging

/-- an exclusive position in the order of an export -/
structure ExportCursor where
  nameSpace : String
  id : Int
  deriving Repr

/-- cursors are ordered by their name space, and then by their identifier -/
instance : LinearOrder ExportCursor :=
  LinearOrder.lift' (fun c => toLex (c.nameSpace, c.id)) fun a b h => by
    cases a
    cases b
    cases toLex.injective h
    rfl

inductive ExportError where
  | badRequest
  | invalidPagination
  | invalidResponse
  | store (error : MemoryError)
  deriving DecidableEq, Repr

namespace Memory

/-- a page, and the cursor of the next one -/
abbrev Exported := List MemoryRecord × Option ExportCursor

/-- `export_page` of a store: the calls are counted, since a store may answer a request differently
when it comes again -/
abbrev PageSource := Nat → Option (List String) → Option ExportCursor → Nat → Except MemoryError Exported

/-- `MAX_EXPORT_PAGE_RECORDS` -/
def maxExportPageRecords : Nat := 128

def exportKey (r : MemoryRecord) : ExportCursor := ⟨r.key.nameSpace.getD "", r.key.id⟩

def selects (namespaces : Option (List String)) (nameSpace : String) : Bool :=
  namespaces.all fun listed => nameSpace ∈ listed

def contentBytes (l : List MemoryRecord) : Nat := (l.map fun memory => strLen memory.content).sum

section
variable [MemoryText] (limits : MemoryLimits) (invalid : ExportError) (ask : PageSource)
  (namespaces : Option (List String))

/-- neither the text nor the metadata looks like a secret -/
def shown (r : MemoryRecord) : Bool :=
  r.metadata.rejectLikelySecret = .ok () && !MemoryText.containsLikelySecret r.content

/-- what the loop has read: its last key, its bytes, and what it shows of it -/
structure PageState where
  previous : Option ExportCursor
  bytes : Nat
  visible : List MemoryRecord

def takeRecord (st : PageState) (memory : MemoryRecord) : Except ExportError PageState := do
  refuseIf (memory.validate .anyRemote limits ≠ .ok ()) invalid
  match memory.key.nameSpace with
  | none => .error invalid
  | some nameSpace => do
    let here : ExportCursor := ⟨nameSpace, memory.key.id⟩
    refuseIf (selects namespaces nameSpace = false ∨ st.previous.all (fun p => p < here) = false) invalid
    refuseIf (limits.totalContentBytes < st.bytes + strLen memory.content) invalid
    .ok {
      previous := some here
      bytes := st.bytes + strLen memory.content
      visible := if shown memory then st.visible ++ [memory] else st.visible }

/-- one answer of the store; its cursor has to be the last key of it -/
def takePage (remaining raw : Nat) (page : List MemoryRecord) (next : Option ExportCursor)
    (st : PageState) : Except ExportError PageState := do
  refuseIf (remaining < page.length ∨ (page = [] ∧ next.isSome = true)) invalid
  refuseIf (limits.records < raw + page.length) invalid
  let st ← page.foldlM (takeRecord limits invalid namespaces) st
  refuseIf (next.any (fun next => st.previous ≠ some next) = true) invalid
  .ok st

/-- the loop of a request; it is given up when the fuel is spent, which `exportLoop_ends` excludes -/
def exportLoop (limit : Nat) : Nat → Nat → Nat → PageState → Option (Except ExportError Exported)
  | 0, _, _, _ => none
  | fuel + 1, call, raw, st =>
    match ask call namespaces st.previous (limit - st.visible.length) with
    | .error e => some (.error (.store e))
    | .ok (page, next) =>
      match takePage limits invalid namespaces (limit - st.visible.length) raw page next st with
      | .error e => some (.error e)
      | .ok st =>
        match next with
        | none => some (.ok (st.visible, none))
        | some next =>
          -- a page ends where its last visible record is the last record that was read
          if st.visible.getLast?.any (fun memory => memory.key.nameSpace = some next.nameSpace &&
              memory.key.id = next.id) then some (.ok (st.visible, some next))
          else exportLoop limit fuel (call + 1) (raw + page.length) st

def exportVisiblePage (cursor : Option ExportCursor) (limit : Nat) : Option (Except ExportError Exported) :=
  exportLoop limits .invalidPagination ask namespaces limit (limits.records + 1) 0 0 ⟨cursor, 0, []⟩

/-- one page of the client, whose source is the server -/
def clientExportPage (cursor : Option ExportCursor) (limit : Nat) : Option (Except ExportError Exported) :=
  exportLoop limits .invalidResponse ask namespaces (max 1 (min limit maxExportPageRecords))
    (limits.records + 1) 0 0 ⟨cursor, 0, []⟩

/-- a request that the server does not refuse -/
def validExport (cursor : Option ExportCursor) (limit : Nat) : Bool :=
  !(limit = 0 || maxExportPageRecords < limit ||
    namespaces.any (fun listed => listed = [] || limits.records < listed.length ||
      listed.any fun nameSpace => !isValidNamespace nameSpace) ||
    cursor.any fun cursor => !isValidNamespace cursor.nameSpace || cursor.id ≤ 0)

/-- `export`: the handler of the request -/
def exportRequest (cursor : Option ExportCursor) (limit : Nat) : Option (Except ExportError Exported) :=
  if validExport limits namespaces cursor limit then exportVisiblePage limits ask namespaces cursor limit
  else some (.error .badRequest)

def follow (limit : Nat) : Nat → Option ExportCursor → Option (Except ExportError (List Exported))
  | 0, _ => none
  | fuel + 1, cursor =>
    match exportRequest limits ask namespaces cursor limit with
    | none => none
    | some (.error e) => some (.error e)
    | some (.ok (page, none)) => some (.ok [(page, none)])
    | some (.ok (page, some next)) =>
      (follow limit fuel (some next)).map fun rest => rest.map fun answers => (page, some next) :: answers

/-- the loop of `export_all` -/
def exportAllLoop : Nat → Nat → Option ExportCursor → List MemoryRecord → Nat →
    Option (Except ExportError (List MemoryRecord))
  | 0, _, _, _, _ => none
  | fuel + 1, call, cursor, records, bytes =>
    match ask call namespaces cursor maxExportPageRecords with
    | .error e => some (.error (.store e))
    | .ok (page, next) =>
      let bytes := bytes + contentBytes page
      if limits.records < records.length + page.length ∨ limits.totalContentBytes < bytes ∨
          next.any (fun next => cursor.any fun cursor => next ≤ cursor) = true ∨
          (page = [] ∧ next.isSome = true) then some (.error .invalidPagination)
      else
        match next with
        | some next => exportAllLoop fuel (call + 1) (some next) (records ++ page) bytes
        | none => some (.ok (records ++ page))

def exportAll : Option (Except ExportError (List MemoryRecord)) :=
  exportAllLoop limits ask namespaces (limits.records + 1) 0 none [] 0

end

/-! ## the loops end -/

section
variable [MemoryText] {limits : MemoryLimits} {invalid : ExportError} {ask : PageSource}
  {namespaces : Option (List String)} {limit fuel call raw : Nat} {st st' : PageState}
  {page : List MemoryRecord} {next : Option ExportCursor}

theorem takePage_ok {remaining : Nat}
    (h : takePage limits invalid namespaces remaining raw page next st = .ok st') :
    raw + page.length ≤ limits.records ∧ (next ≠ none → 0 < page.length) := by
  obtain ⟨hlength, h⟩ := refuseIf_bind h
  obtain ⟨hraw, -⟩ := refuseIf_bind h
  rw [not_or, not_and] at hlength
  refine ⟨by omega, fun hnext => List.length_pos_iff.mpr fun hempty => ?_⟩
  exact hlength.2 hempty (Option.isSome_iff_ne_none.mpr hnext)

/-- **The loop of a request ends, whatever the store answers.** -/
theorem exportLoop_ends (hraw : raw ≤ limits.records) (hfuel : limits.records < raw + fuel) :
    (exportLoop limits invalid ask namespaces limit fuel call raw st).isSome = true := by
  induction fuel generalizing call raw st with
  | zero => omega
  | succ fuel ih =>
    unfold exportLoop
    split
    · rfl
    · split
      · rfl
      · rename_i hpage
        obtain ⟨hcount, hsome⟩ := takePage_ok hpage
        split
        · rfl
        · split
          · rfl
          · have hpos := hsome (Option.some_ne_none _)
            exact ih hcount (by omega)

/-- **The collector ends, whatever the store answers.** -/
theorem exportAllLoop_ends {cursor : Option ExportCursor} {records : List MemoryRecord} {bytes : Nat}
    (hraw : records.length ≤ limits.records) (hfuel : limits.records < records.length + fuel) :
    (exportAllLoop limits ask namespaces fuel call cursor records bytes).isSome = true := by
  induction fuel generalizing call cursor records bytes with
  | zero => omega
  | succ fuel ih =>
    unfold exportAllLoop
    split
    · rfl
    · simp only
      split
      · rfl
      · rename_i hchecks
        rw [not_or, not_or, not_or] at hchecks
        obtain ⟨hcount, -, -, hempty⟩ := hchecks
        split
        · rename_i page _ next _
          have hpos : 0 < page.length := List.length_pos_iff.mpr fun hnil => hempty ⟨hnil, rfl⟩
          refine ih ?_ ?_ <;> rw [List.length_append] <;> omega
        · rfl

end

/-! ## a store that hands out its records in order -/

/-- valid records of name spaces, in the order of their keys, and a source of their pages -/
structure OrderedStore (limits : MemoryLimits) where
  records : List MemoryRecord
  sorted : Sorted exportKey records
  valid : ∀ r ∈ records, r.validate .anyRemote limits = .ok ()
  serve : Option (List String) → Option ExportCursor → Nat → Exported
  serves : ∀ namespaces, Serves exportKey
    (records.filter fun r => selects namespaces (exportKey r).nameSpace) (serve namespaces)

namespace OrderedStore
variable {limits : MemoryLimits} (store : OrderedStore limits) (namespaces : Option (List String))

def ask : PageSource := fun _ namespaces cursor limit => .ok (store.serve namespaces cursor limit)

def selected : List MemoryRecord :=
  store.records.filter fun r => selects namespaces (exportKey r).nameSpace

def rest (cursor : Option ExportCursor) : List MemoryRecord :=
  after exportKey cursor (store.selected namespaces)

/-- the records that one request reads, shown or not, when `count` of them are shown already -/
def rawRead [MemoryText] (limit : Nat) : Nat → Option ExportCursor → Nat → List MemoryRecord
  | 0, _, _ => []
  | steps + 1, cursor, count =>
    let page := (store.serve namespaces cursor (limit - count)).1
    page ++ match (store.serve namespaces cursor (limit - count)).2 with
      | none => []
      | some next =>
        if page.getLast?.any shown then []
        else rawRead limit steps (some next) (count + (page.filter shown).length)

/-- one request reads no more than the router allows -/
def Fits [MemoryText] (limit : Nat) (cursor : Option ExportCursor) : Prop :=
  (store.rawRead namespaces limit (store.records.length + 1) cursor 0).length ≤ limits.records ∧
    contentBytes (store.rawRead namespaces limit (store.records.length + 1) cursor 0) ≤
      limits.totalContentBytes

/-- the cursors that following them leads to -/
inductive Asked [MemoryText] (limit : Nat) : Option ExportCursor → Prop
  | first : Asked limit none
  | next {cursor : Option ExportCursor} {page : List MemoryRecord} {next : ExportCursor}
      (hcursor : Asked limit cursor)
      (hpage : exportRequest limits store.ask namespaces cursor limit = some (.ok (page, some next))) :
      Asked limit (some next)

end OrderedStore

section
variable [MemoryText] {limits : MemoryLimits} {invalid : ExportError} {store : OrderedStore limits}
  {namespaces : Option (List String)} {limit fuel call raw : Nat} {st : PageState}
  {page : List MemoryRecord} {r : MemoryRecord}

theorem contentBytes_append (l m : List MemoryRecord) :
    contentBytes (l ++ m) = contentBytes l + contentBytes m := by
  rw [contentBytes, List.map_append, List.sum_append]
  rfl

theorem contentBytes_sublist {l m : List MemoryRecord} (h : l.Sublist m) :
    contentBytes l ≤ contentBytes m := by
  induction h with
  | slnil => exact le_rfl
  | cons r _ ih => exact ih.trans (Nat.le_add_left _ _)
  | cons_cons r _ ih => exact Nat.add_le_add_left ih _

theorem validate_anyRemote (h : r.validate .anyRemote limits = .ok ()) :
    ∃ nameSpace, r.key.nameSpace = some nameSpace ∧ isValidNamespace nameSpace = true ∧ 0 < r.key.id := by
  have hold := refuseIf_ok h
  simp only [not_or] at hold
  obtain ⟨hid, -, -, -, -, hvalid, hscope, -⟩ := hold
  cases hspace : r.key.nameSpace with
  | none =>
    rw [hspace] at hscope
    exact absurd rfl hscope
  | some nameSpace =>
    rw [hspace] at hvalid
    exact ⟨nameSpace, rfl, Bool.of_not_eq_false hvalid, not_le.mp hid⟩

theorem OrderedStore.selected_sorted : Sorted exportKey (store.selected namespaces) :=
  List.Pairwise.filter _ store.sorted

theorem OrderedStore.mem_rest {cursor : Option ExportCursor} (h : r ∈ store.rest namespaces cursor) :
    r.validate .anyRemote limits = .ok () ∧ selects namespaces (exportKey r).nameSpace = true ∧
      ∀ p ∈ cursor, p < exportKey r := by
  obtain ⟨hr, hafter⟩ := List.mem_filter.mp h
  obtain ⟨hr, hselected⟩ := List.mem_filter.mp hr
  refine ⟨store.valid r hr, hselected, fun p hp => ?_⟩
  cases hp
  simpa using hafter

attribute [grind =] exportKey

theorem takeRecord_ok (hvalid : r.validate .anyRemote limits = .ok ())
    (hselected : selects namespaces (exportKey r).nameSpace = true)
    (hordered : ∀ p ∈ st.previous, p < exportKey r)
    (hbytes : st.bytes + strLen r.content ≤ limits.totalContentBytes) :
    takeRecord limits invalid namespaces st r =
      .ok ⟨some (exportKey r), st.bytes + strLen r.content, st.visible ++ [r].filter shown⟩ := by
  obtain ⟨nameSpace, hspace, -, -⟩ := validate_anyRemote hvalid
  have hkey : exportKey r = ⟨nameSpace, r.key.id⟩ := by
    rw [exportKey, hspace]
    rfl
  rw [hkey] at hselected hordered
  have hall : st.previous.all (fun p => p < (⟨nameSpace, r.key.id⟩ : ExportCursor)) = true := by
    cases hprevious : st.previous with
    | none => rfl
    | some p => exact decide_eq_true (hordered p hprevious)
  rw [takeRecord, refuseIf_of_not _ (not_not.mpr hvalid), ok_bind, hspace]
  show (refuseIf (selects namespaces nameSpace = false ∨ _) invalid >>= _) = _
  rw [refuseIf_of_not, ok_bind, refuseIf_of_not, ok_bind, hkey]
  · congr 2
    rw [List.filter_singleton]
    cases shown r with
    | true => rfl
    | false => exact (List.append_nil _).symm
  · omega
  · rw [not_or, hselected, hall]
    exact ⟨Bool.noConfusion, Bool.noConfusion⟩

theorem takeRecords_ok (hsorted : Sorted exportKey page)
    (hvalid : ∀ r ∈ page, r.validate .anyRemote limits = .ok () ∧
      selects namespaces (exportKey r).nameSpace = true ∧ ∀ p ∈ st.previous, p < exportKey r)
    (hbytes : st.bytes + contentBytes page ≤ limits.totalContentBytes) :
    page.foldlM (takeRecord limits invalid namespaces) st =
      .ok ⟨(page.getLast?.map exportKey).or st.previous, st.bytes + contentBytes page,
        st.visible ++ page.filter shown⟩ := by
  induction page generalizing st with
  | nil =>
    show Except.ok st = Except.ok ⟨st.previous, st.bytes + 0, st.visible ++ []⟩
    rw [Nat.add_zero, List.append_nil]
  | cons r page ih =>
    obtain ⟨hfirst, hsorted⟩ := List.pairwise_cons.mp hsorted
    obtain ⟨⟨hr, hselected, hordered⟩, hrest⟩ := List.forall_mem_cons.mp hvalid
    have hsum : contentBytes (r :: page) = strLen r.content + contentBytes page := rfl
    rw [List.foldlM_cons, takeRecord_ok hr hselected hordered (by omega), ok_bind, ih hsorted]
    · rw [hsum, Nat.add_assoc, List.append_assoc, ← List.filter_append, List.singleton_append]
      congr 2
      cases hlast : page.getLast? with
      | none =>
        rw [List.getLast?_eq_none_iff] at hlast
        rw [hlast]
        rfl
      | some a =>
        rw [List.getLast?_cons, hlast]
        rfl
    · refine fun a ha => ⟨(hrest a ha).1, (hrest a ha).2.1, fun p hp => ?_⟩
      cases hp
      exact hfirst a ha
    · show st.bytes + strLen r.content + contentBytes page ≤ _
      omega

theorem takePage_served {remaining : Nat} {tail : List MemoryRecord} {next : Option ExportCursor}
    (hrest : store.rest namespaces st.previous = page ++ tail) (hlength : page.length ≤ remaining)
    (hnext : ∀ k, next = some k → ∃ a, page.getLast? = some a ∧ k = exportKey a)
    (hraw : raw + page.length ≤ limits.records)
    (hbytes : st.bytes + contentBytes page ≤ limits.totalContentBytes) :
    takePage limits invalid namespaces remaining raw page next st =
      .ok ⟨(page.getLast?.map exportKey).or st.previous, st.bytes + contentBytes page,
        st.visible ++ page.filter shown⟩ := by
  have hsorted : Sorted exportKey (page ++ tail) := hrest ▸ store.selected_sorted.after _
  have htaken : page.foldlM (takeRecord limits invalid namespaces) st = .ok _ :=
    takeRecords_ok (List.pairwise_append.mp hsorted).1 (fun r hr =>
      store.mem_rest (hrest ▸ List.mem_append_left tail hr)) hbytes
  rw [takePage, refuseIf_of_not, ok_bind, refuseIf_of_not _ (by omega), ok_bind, htaken, ok_bind,
    refuseIf_of_not, ok_bind]
  · cases next with
    | none => exact Bool.noConfusion
    | some k =>
      obtain ⟨a, ha, rfl⟩ := hnext k rfl
      rw [ha]
      simp
  · rintro (hlong | ⟨hempty, hsome⟩)
    · omega
    · obtain ⟨k, hk⟩ := Option.isSome_iff_exists.mp hsome
      obtain ⟨a, ha, -⟩ := hnext k hk
      rw [hempty] at ha
      cases ha

theorem lastVisible_iff {a : MemoryRecord} {tail : List MemoryRecord}
    (hrest : store.rest namespaces st.previous = page ++ tail) (hlast : page.getLast? = some a)
    (hvisible : ∀ v ∈ st.visible, ∃ p ∈ st.previous, exportKey v ≤ p) :
    (st.visible ++ page.filter shown).getLast?.any (fun memory =>
      memory.key.nameSpace = some (exportKey a).nameSpace && memory.key.id = (exportKey a).id) = shown a := by
  obtain ⟨init, rfl⟩ : ∃ init, page = init ++ [a] := List.getLast?_eq_some_iff.mp hlast
  have hmem : ∀ r ∈ init ++ [a], r ∈ store.rest namespaces st.previous := fun r hr => by
    rw [hrest]
    exact List.mem_append_left tail hr
  obtain ⟨hvalid, -, hafter⟩ := store.mem_rest (hmem a (List.mem_append_right _ (List.mem_singleton_self a)))
  rw [List.filter_append, List.filter_singleton, ← List.append_assoc]
  cases hshown : shown a with
  | true =>
    obtain ⟨nameSpace, hspace, -, -⟩ := validate_anyRemote hvalid
    have hkey : exportKey a = ⟨nameSpace, a.key.id⟩ := by
      rw [exportKey, hspace]
      rfl
    rw [cond_true, List.getLast?_concat, Option.any_some, hkey, hspace]
    simp
  | false =>
    rw [cond_false, List.append_nil]
    -- every record that is shown lies before the last one
    have hbefore : ∀ v ∈ st.visible ++ init.filter shown, exportKey v < exportKey a := by
      intro v hv
      rcases List.mem_append.mp hv with hv | hv
      · obtain ⟨p, hp, hle⟩ := hvisible v hv
        exact hle.trans_lt (hafter p hp)
      · have hsorted : Sorted exportKey ((init ++ [a]) ++ tail) := hrest ▸ store.selected_sorted.after _
        have hpage := (List.pairwise_append.mp hsorted).1
        exact (List.pairwise_append.mp hpage).2.2 v (List.mem_filter.mp hv).1 a (List.mem_singleton_self a)
    rw [Option.any_eq_false]
    intro v hv
    rw [Bool.eq_false_iff]
    intro hsame
    refine (hbefore v (List.mem_of_getLast? hv)).ne ?_
    simp only [Bool.and_eq_true, decide_eq_true_eq] at hsame
    rw [exportKey, hsame.1, hsame.2]
    rfl

/-- **The loop shows what is to be shown of a beginning of the rest, and ends at the last record of
it.** -/
theorem exportLoop_ordered {steps : Nat} (hlimit : st.visible.length < limit)
    (hvisible : ∀ v ∈ st.visible, ∃ p ∈ st.previous, exportKey v ≤ p)
    (hsteps : (store.rest namespaces st.previous).length < steps) (hraw : raw ≤ limits.records)
    (hfuel : limits.records < raw + fuel)
    (hrecords : raw + (store.rawRead namespaces limit steps st.previous st.visible.length).length ≤
      limits.records)
    (hbytes : st.bytes + contentBytes (store.rawRead namespaces limit steps st.previous
      st.visible.length) ≤ limits.totalContentBytes) :
    ∃ taken tail next, store.rest namespaces st.previous = taken ++ tail ∧
      exportLoop limits invalid store.ask namespaces limit fuel call raw st =
        some (.ok (st.visible ++ taken.filter shown, next)) ∧
      st.visible.length + (taken.filter shown).length ≤ limit ∧ (next = none → tail = []) ∧
      ∀ k, next = some k → ∃ a, taken.getLast? = some a ∧ shown a = true ∧ k = exportKey a := by
  induction steps generalizing fuel call raw st with
  | zero => omega
  | succ steps ih =>
    cases fuel with
    | zero => omega
    | succ fuel =>
      obtain ⟨hlength, tail, hrest, hnone, hsome⟩ :=
        store.serves namespaces st.previous (limit - st.visible.length) (by omega)
      obtain ⟨page, hpage⟩ : ∃ page, page =
        (store.serve namespaces st.previous (limit - st.visible.length)).1 := ⟨_, rfl⟩
      obtain ⟨next, hnext⟩ : ∃ next, next =
        (store.serve namespaces st.previous (limit - st.visible.length)).2 := ⟨_, rfl⟩
      have hrest : store.rest namespaces st.previous = page ++ tail := hpage ▸ hrest
      have hask : store.ask call namespaces st.previous (limit - st.visible.length) = .ok (page, next) := by
        rw [hpage, hnext]
        rfl
      rw [← hpage] at hlength hsome
      rw [← hnext] at hnone hsome
      have hshown : (page.filter shown).length ≤ page.length := List.length_filter_le _ _
      rw [OrderedStore.rawRead, ← hpage, ← hnext] at hrecords hbytes
      rw [List.length_append] at hrecords
      rw [contentBytes_append] at hbytes
      have htaken : takePage limits invalid namespaces (limit - st.visible.length) raw page next st = .ok _ :=
        takePage_served hrest hlength hsome (by omega) (by omega)
      rw [exportLoop, hask]
      simp only [htaken]
      cases next with
      | none =>
        refine ⟨page, tail, none, hrest, rfl, by omega, fun _ => hnone rfl, fun k hk => (nomatch hk)⟩
      | some k =>
        obtain ⟨a, ha, rfl⟩ := hsome k rfl
        simp only [lastVisible_iff hrest ha hvisible]
        cases hlast : shown a with
        | true =>
          refine ⟨page, tail, some (exportKey a), hrest, rfl, by omega, fun h => (nomatch h), fun k hk => ?_⟩
          cases hk
          exact ⟨a, ha, hlast, rfl⟩
        | false =>
          -- the store is asked again, for what is still missing
          have hless : (page.filter shown).length < page.length := by
            rw [List.length_filter_lt_length_iff_exists]
            exact ⟨a, List.mem_of_getLast? ha, by rw [hlast]; exact Bool.noConfusion⟩
          have hafter : store.rest namespaces (some (exportKey a)) = tail :=
            after_last store.selected_sorted hrest ha
          have hcount : (store.rest namespaces st.previous).length = page.length + tail.length := by
            rw [hrest, List.length_append]
          rw [ha] at hrecords hbytes
          simp only [Option.any_some, hlast, Bool.false_eq_true, if_false] at hrecords hbytes
          have hsorted : Sorted exportKey (page ++ tail) := hrest ▸ store.selected_sorted.after _
          have hle : ∀ v ∈ st.visible ++ page.filter shown, exportKey v ≤ exportKey a := by
            intro v hv
            rcases List.mem_append.mp hv with hv | hv
            · obtain ⟨p, hp, hle⟩ := hvisible v hv
              have hmem : a ∈ store.rest namespaces st.previous := by
                rw [hrest]
                exact List.mem_append_left _ (List.mem_of_getLast? ha)
              exact hle.trans ((store.mem_rest hmem).2.2 p hp).le
            · exact Sorted.le_last (List.pairwise_append.mp hsorted).1 ha (List.mem_filter.mp hv).1
          have hmore := @ih fuel (call + 1) (raw + page.length)
            ⟨some (exportKey a), st.bytes + contentBytes page, st.visible ++ page.filter shown⟩
          simp only [List.length_append, hafter] at hmore
          obtain ⟨taken, rest, next, htail, hrun, hshort, hend, hcursor⟩ :=
            hmore (by omega) (fun v hv => ⟨exportKey a, rfl, hle v hv⟩) (by omega) (by omega) (by omega)
              (by omega) (by omega)
          refine ⟨page ++ taken, rest, next, ?_, ?_, ?_, hend, fun k hk => ?_⟩
          · rw [hrest, List.append_assoc, htail]
          · rw [ha]
            refine hrun.trans ?_
            rw [List.filter_append, List.append_assoc]
          · rw [List.filter_append, List.length_append]
            omega
          · obtain ⟨b, hb, hshownb, rfl⟩ := hcursor k hk
            exact ⟨b, by rw [List.getLast?_append, hb]; rfl, hshownb, rfl⟩

end

/-! ## following the cursors -/

section
variable [MemoryText] {limits : MemoryLimits} {store : OrderedStore limits}
  {namespaces : Option (List String)} {limit fuel : Nat} {cursor : Option ExportCursor}

theorem validExport_pos (h : validExport limits namespaces cursor limit = true) : 0 < limit := by
  refine Nat.pos_of_ne_zero fun hzero => ?_
  rw [validExport, decide_eq_true hzero] at h
  cases h

theorem validExport_next {r : MemoryRecord} (h : validExport limits namespaces cursor limit = true)
    (hr : r.validate .anyRemote limits = .ok ()) :
    validExport limits namespaces (some (exportKey r)) limit = true := by
  obtain ⟨nameSpace, hspace, hvalid, hid⟩ := validate_anyRemote hr
  have hcursor : (!isValidNamespace (exportKey r).nameSpace || decide ((exportKey r).id ≤ 0)) = false := by
    rw [exportKey, hspace, Option.getD_some, hvalid, decide_eq_false (not_le.mpr hid)]
    rfl
  rw [validExport, Bool.not_eq_true', Bool.or_eq_false_iff] at h ⊢
  exact ⟨h.1, hcursor⟩

theorem exportRequest_ordered (hvalid : validExport limits namespaces cursor limit = true)
    (hfits : store.Fits namespaces limit cursor) :
    ∃ taken tail next, store.rest namespaces cursor = taken ++ tail ∧
      exportRequest limits store.ask namespaces cursor limit =
        some (.ok (taken.filter shown, next)) ∧
      (taken.filter shown).length ≤ limit ∧ (next = none → tail = []) ∧
      ∀ k, next = some k → ∃ a, taken.getLast? = some a ∧ shown a = true ∧ k = exportKey a := by
  have hsteps : (store.rest namespaces cursor).length < store.records.length + 1 :=
    Nat.lt_succ_of_le ((after_sublist _ _).length_le.trans List.filter_sublist.length_le)
  obtain ⟨taken, tail, next, hrest, hrun, hshort, hend, hcursor⟩ :=
    @exportLoop_ordered _ limits .invalidPagination store namespaces limit (limits.records + 1) 0 0
      ⟨cursor, 0, []⟩ _ (validExport_pos hvalid) (fun v hv => (nomatch hv)) hsteps (Nat.zero_le _)
      (by omega) (by rw [Nat.zero_add]; exact hfits.1) (by rw [Nat.zero_add]; exact hfits.2)
  refine ⟨taken, tail, next, hrest, ?_, ?_, hend, hcursor⟩
  · rw [exportRequest, if_pos hvalid]
    exact hrun
  · rw [← Nat.zero_add (taken.filter shown).length]
    exact hshort

theorem follow_ordered (hasked : store.Asked namespaces limit cursor)
    (hvalid : validExport limits namespaces cursor limit = true)
    (hfits : ∀ cursor, store.Asked namespaces limit cursor → store.Fits namespaces limit cursor)
    (hfuel : (store.rest namespaces cursor).length < fuel) :
    ∃ answers, follow limits store.ask namespaces limit fuel cursor = some (.ok answers) ∧
      (answers.map Prod.fst).flatten = (store.rest namespaces cursor).filter shown ∧
      ∀ answer ∈ answers, answer.1.length ≤ limit ∧ (answer.2 ≠ none → answer.1 ≠ []) := by
  induction fuel generalizing cursor with
  | zero => omega
  | succ fuel ih =>
    obtain ⟨taken, tail, next, hrest, hrequest, hshort, hend, hcursor⟩ :=
      exportRequest_ordered hvalid (hfits cursor hasked)
    rw [follow, hrequest]
    cases next with
    | none =>
      rw [hrest, hend rfl, List.append_nil]
      refine ⟨_, rfl, List.append_nil _, fun answer hanswer => ?_⟩
      rw [List.mem_singleton.mp hanswer]
      exact ⟨hshort, fun h => absurd rfl h⟩
    | some k =>
      obtain ⟨a, ha, hshown, rfl⟩ := hcursor k rfl
      have hmem : a ∈ taken := List.mem_of_getLast? ha
      have hin : a ∈ store.rest namespaces cursor := hrest ▸ List.mem_append_left _ hmem
      have hafter : store.rest namespaces (some (exportKey a)) = tail :=
        after_last store.selected_sorted hrest ha
      have hpos : 0 < taken.length := List.length_pos_of_mem hmem
      rw [hrest, List.length_append] at hfuel
      obtain ⟨answers, hanswers, hall, hpages⟩ := ih (.next hasked hrequest)
        (validExport_next hvalid (store.mem_rest hin).1) (by rw [hafter]; omega)
      refine ⟨(taken.filter shown, some (exportKey a)) :: answers, ?_, ?_, ?_⟩
      · simp only [hanswers]
        rfl
      · rw [List.map_cons, List.flatten_cons, hall, hafter, hrest, List.filter_append]
      · refine List.forall_mem_cons.mpr ⟨⟨hshort, fun _ hempty => ?_⟩, hpages⟩
        exact List.ne_nil_of_mem (List.mem_filter.mpr ⟨hmem, hshown⟩) hempty

theorem OrderedStore.rawRead_prefix (steps count : Nat) (cursor : Option ExportCursor) (h : count < limit) :
    store.rawRead namespaces limit steps cursor count <+: store.rest namespaces cursor := by
  induction steps generalizing count cursor with
  | zero => exact List.nil_prefix
  | succ steps ih =>
    obtain ⟨hlength, tail, hrest, -, hsome⟩ := store.serves namespaces cursor (limit - count) (by omega)
    have hrest : store.rest namespaces cursor = _ ++ tail := hrest
    rw [rawRead, hrest, List.prefix_append_right_inj]
    split
    · exact List.nil_prefix
    · rename_i k hk
      obtain ⟨a, ha, rfl⟩ := hsome k hk
      split
      · exact List.nil_prefix
      · rename_i hlast
        rw [ha, Option.any_some] at hlast
        have hless : ((store.serve namespaces cursor (limit - count)).1.filter shown).length <
            (store.serve namespaces cursor (limit - count)).1.length :=
          List.length_filter_lt_length_iff_exists.mpr ⟨a, List.mem_of_getLast? ha, hlast⟩
        have hafter : store.rest namespaces (some (exportKey a)) = tail :=
          after_last store.selected_sorted hrest ha
        rw [← hafter]
        exact ih _ _ (by omega)

theorem OrderedStore.fits_of_selected (hlimit : 0 < limit)
    (hrecords : (store.selected namespaces).length ≤ limits.records)
    (hbytes : contentBytes (store.selected namespaces) ≤ limits.totalContentBytes)
    (cursor : Option ExportCursor) : store.Fits namespaces limit cursor := by
  have hsub : (store.rawRead namespaces limit (store.records.length + 1) cursor 0).Sublist
      (store.selected namespaces) :=
    (store.rawRead_prefix _ 0 cursor hlimit).sublist.trans (after_sublist _ _)
  exact ⟨hsub.length_le.trans hrecords, (contentBytes_sublist hsub).trans hbytes⟩

/-- **Following the cursors of an ordered store shows every visible record once, in order, as long as
no single request reads more than the router allows; no page but the last one is empty.  The loops of
the server, of the client and of the collector end whatever the store answers.** -/
theorem memory_export_lossless (limits : MemoryLimits) :
    (∀ (store : OrderedStore limits) (namespaces : Option (List String)) (limit : Nat),
      validExport limits namespaces none limit = true →
      (∀ cursor, store.Asked namespaces limit cursor → store.Fits namespaces limit cursor) →
      ∀ fuel, store.records.length < fuel → ∃ answers,
        follow limits store.ask namespaces limit fuel none = some (.ok answers) ∧
        (answers.map Prod.fst).flatten = (store.selected namespaces).filter shown ∧
        ∀ answer ∈ answers, answer.1.length ≤ limit ∧ (answer.2 ≠ none → answer.1 ≠ [])) ∧
    ∀ (ask : PageSource) (namespaces : Option (List String)),
      (exportAll limits ask namespaces).isSome = true ∧ ∀ cursor limit,
        (exportVisiblePage limits ask namespaces cursor limit).isSome = true ∧
          (clientExportPage limits ask namespaces cursor limit).isSome = true := by
  refine ⟨fun store namespaces limit hvalid hfits fuel hfuel => ?_,
    fun ask namespaces => ⟨?_, fun cursor limit => ?_⟩⟩
  · have hall : store.rest namespaces none = store.selected namespaces := after_none _
    have hlength : (store.selected namespaces).length ≤ store.records.length :=
      List.filter_sublist.length_le
    rw [← hall]
    exact follow_ordered .first hvalid hfits (by rw [hall]; omega)
  · exact exportAllLoop_ends (Nat.zero_le _) (by rw [List.length_nil]; omega)
  · exact ⟨exportLoop_ends (Nat.zero_le _) (by omega), exportLoop_ends (Nat.zero_le _) (by omega)⟩

end

namespace ExportSample

/-- one text is a secret -/
scoped instance text : MemoryText := ⟨fun s => s, fun s => s = "token", fun _ _ _ => []⟩

def memory (id : Int) (content : String) : MemoryRecord :=
  ⟨MemoryMetadata.default, ⟨id, 1, some "alice"⟩, content, 0, 0, none, 0, none, 0, none⟩

/-- a visible record between two hidden ones -/
def records : List MemoryRecord := [memory 1 "token", memory 2 "note", memory 3 "token"]

def store : OrderedStore MemoryLimits.production where
  records := records
  sorted := by
    unfold Sorted
    decide +kernel
  valid := by decide +kernel
  serve := fun namespaces => pageOf exportKey
    (records.filter fun r => selects namespaces (exportKey r).nameSpace)
  serves := fun _ => pageOf_serves _ _

end ExportSample

open ExportSample

theorem memory_export_lossless_hidden :
    validExport MemoryLimits.production none none 1 = true ∧
    (∀ cursor, store.Asked none 1 cursor → store.Fits none 1 cursor) ∧
    ∃ answers, follow MemoryLimits.production store.ask none 1 4 none = some (.ok answers) ∧
      (answers.map Prod.fst).flatten = [memory 2 "note"] ∧
      ∀ answer ∈ answers, answer.1.length ≤ 1 ∧ (answer.2 ≠ none → answer.1 ≠ []) := by
  have hvalid : validExport MemoryLimits.production none none 1 = true := by decide
  have hfits : ∀ cursor, store.Asked none 1 cursor → store.Fits none 1 cursor := fun cursor _ =>
    store.fits_of_selected Nat.one_pos (by decide +kernel) (by decide +kernel) cursor
  refine ⟨hvalid, hfits, ?_⟩
  obtain ⟨answers, hrun, hall, hpages⟩ :=
    (memory_export_lossless MemoryLimits.production).1 store none 1 hvalid hfits 4 (by decide)
  exact ⟨answers, hrun, hall.trans (by decide +kernel), hpages⟩

end Memory

end Orvek
