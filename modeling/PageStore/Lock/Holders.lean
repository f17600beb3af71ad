import PageStore.Ident

/-!
# The holders of a page

A page is held by readers, or by one writer.  A request is granted if it agrees with the holders;
otherwise it is answered by the holders that it conflicts with.  A transaction that writes a page
may read it too, and the only reader of a page may become its writer.
-/

namespace PageStore

/-- How a transaction holds a page. -/
inductive LockMode where
  | shared
  | exclusive
deriving DecidableEq, Repr, Inhabited

/-- The transactions that hold a page. -/
structure Holders where
  readers : List TxnId
  writer : Option TxnId
deriving DecidableEq, Repr, Inhabited

namespace Holders

/-- Nobody holds the page. -/
def none : Holders := ⟨[], .none⟩

/-- Grants a request, or names the holders that it conflicts with. -/
def grant (holders : Holders) (txn : TxnId) (mode : LockMode) : Except (List TxnId) Holders :=
  match holders.writer with
  | some writer => if writer = txn then .ok holders else .error [writer]
  | .none =>
    match mode with
    | .shared =>
      .ok (if txn ∈ holders.readers then holders
        else { holders with readers := holders.readers ++ [txn] })
    | .exclusive =>
      let others := holders.readers.filter fun reader => reader ≠ txn
      if others = [] then .ok ⟨[], some txn⟩ else .error others

/-- The holders without a transaction. -/
def remove (holders : Holders) (txn : TxnId) : Holders :=
  ⟨holders.readers.filter fun reader => reader ≠ txn,
    if holders.writer = some txn then .none else holders.writer⟩

/-- How a transaction holds the page, if it does. -/
def mode? (holders : Holders) (txn : TxnId) : Option LockMode :=
  if holders.writer = some txn then some .exclusive
  else if txn ∈ holders.readers then some .shared
  else .none

/-- Whether nobody holds the page. -/
def isFree (holders : Holders) : Bool := holders.writer.isNone && holders.readers.isEmpty

/-- The transactions that hold the page. -/
def members (holders : Holders) : List TxnId := holders.writer.toList ++ holders.readers

end Holders

end PageStore
