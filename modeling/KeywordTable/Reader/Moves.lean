import KeywordTable.Reader

/-!
# The moves of a reader

A reader acts by moves.  `step` is one move: it yields an item, ends, or turns a
page without yielding.  A page is asked for only when the buffer is empty, and it
starts where the page before it ended.  Pages may be empty, so any number of pages
may be turned before an item comes; `next` makes at most a given number of moves,
and answers `turned` when they do not suffice.

Counting reads the same pages but keeps no items: it asks the store for counts
only and adds them up.
-/

namespace KeywordTable

/-- What a move of a reader leads to. -/
inductive Move where
  /-- An item, or the fault in its place. -/
  | yielded (result : Except Fault Item)
  /-- A page was read and nothing was yielded yet. -/
  | turned
  /-- There is nothing more to yield. -/
  | ended

namespace Reader

variable {σ : Type}

/-! ### Reading pages -/

/-- Fix the options, unless they conflict. -/
def bindOptions (reader : Reader) : Except Fault Reader :=
  let limit := reader.request.read.limit
  if reader.recursive && limit.isSome && !reader.acrossPages then
    throw (.conflictingOptions ("limit caps a single page while recursive reads every page, " ++
      "use limit_across_pages to combine them"))
  else
    return { reader with
      phase := .bound
      budget := if reader.recursive && reader.acrossPages then limit else reader.budget }

/-- The request for the next page. -/
def pageRequest (reader : Reader) : PageRequest :=
  let read := reader.request.read
  { reader.request with
    read := { read with
      start := if reader.pages = 0 then read.start else reader.last
      limit := reader.budget <|> read.limit } }

/-- The reader after a page was read. -/
def afterPage (reader : Reader) (page : Page) : Reader :=
  { reader with
    pages := reader.pages + 1
    last := page.last
    budget := reader.budget.map (· - page.scanned) }

/-- Read the next page. -/
def fetch (store : Store σ) (reader : Reader) : Run σ (Page × Reader) := do
  let page ← reader.pageRequest.send store
  return (page, reader.afterPage page)

/-- Is there a next page to read? -/
def hasNextPage (reader : Reader) : Bool :=
  reader.recursive && reader.last.isSome && reader.budget.all (0 < ·)

/-- Read the next page into the buffer. -/
def loadPage (store : Store σ) (reader : Reader) : Run σ Reader := do
  let (page, reader) ← reader.fetch store
  return { reader with buffer := reader.buffer ++ page.items }

/-! ### Yielding items -/

/-- May the items lack attributes? -/
def yieldsIncomplete (reader : Reader) : Bool :=
  reader.incomplete || !reader.request.read.selection.isEmpty

/-- End the reading because of a fault. -/
def fail (reader : Reader) (fault : Fault) : Move × Reader :=
  (.yielded (.error fault), { reader with phase := .exhausted, buffer := [] })

/-- Turn to the next page; a fault ends the reading. -/
def turnPage (store : Store σ) (reader : Reader) : StateM σ (Move × Reader) := do
  match ← (reader.loadPage store).attempt with
  | .ok loaded => return (.turned, loaded)
  | .error fault => return reader.fail fault

/-- One move of a reader. -/
def step (store : Store σ) (reader : Reader) : StateM σ (Move × Reader) :=
  match reader.phase with
  | .exhausted => return (.ended, reader)
  | .configuring =>
    match reader.bindOptions with
    | .error fault => return reader.fail fault
    | .ok bound => bound.turnPage store
  | .bound =>
    match reader.buffer with
    | raw :: rest =>
      return (.yielded (reader.validator.check raw reader.yieldsIncomplete),
        { reader with buffer := rest })
    | [] =>
      if reader.hasNextPage then reader.turnPage store
      else return (.ended, { reader with phase := .exhausted })

/-- The next item, or the end, in at most `moves` moves. -/
def next (store : Store σ) : Nat → Reader → StateM σ (Move × Reader)
  | 0, reader => return (.turned, reader)
  | moves + 1, reader => do
    match ← reader.step store with
    | (.turned, reader) => next store moves reader
    | done => return done

/-- The next results until the end, at most `count` of them, each in at most
`moves` moves. -/
def take (store : Store σ) (moves : Nat) : Nat → Reader →
    StateM σ (List (Except Fault Item) × Reader)
  | 0, reader => return ([], reader)
  | count + 1, reader => do
    match ← reader.next store moves with
    | (.yielded result, reader) => do
      let (results, reader) ← take store moves count reader
      return (result :: results, reader)
    | (_, reader) => return ([], reader)

/-- The sum of the counts of the next pages, unless there are more than `pages`. -/
def countPages (store : Store σ) : Nat → Int → Reader → Run σ (Option Int)
  | 0, _, _ => return none
  | pages + 1, total, reader => do
    let (page, reader) ← reader.fetch store
    let total := total + page.count.toInt
    if reader.hasNextPage then countPages store pages total reader else return some total

/-- The reader that counts instead of yielding. -/
def counting (reader : Reader) : Reader :=
  reader.modifyRead ({ · with select := some "COUNT", selection := {} })

/-- How many items the reader would yield, as counted by the store; none when that
takes more than `pages` pages. -/
def count (store : Store σ) (pages : Nat) (reader : Reader) : Run σ (Option Int) := do
  let bound ← Run.ofExcept (reader.configure fun r => r.counting.bindOptions)
  countPages store pages 0 bound

end Reader

end KeywordTable
