import Mathlib.Data.List.AList
import Servd.Lib.Bytes

/-!
Session records and the in-memory session store. A request works on a copy of a
record: `getOrCreate` copies it out and `save` writes the whole copy back under
the record's own id.
-/
namespace Servd

/-- `std::unordered_map`: at most one value for a key. Its iteration order is not part of
the model; code that iterates is given an order of the entries. -/
abbrev UnorderedMap (κ ν : Type) := AList fun _ : κ => ν

def UnorderedMap.pairs {κ ν : Type} (m : UnorderedMap κ ν) : List (κ × ν) :=
  m.entries.map fun e => (e.1, e.2)

theorem UnorderedMap.mem_pairs {κ ν : Type} [DecidableEq κ] {m : UnorderedMap κ ν} {k : κ}
    {v : ν} : (k, v) ∈ m.pairs ↔ m.lookup k = some v := by
  rw [← Option.mem_def, AList.mem_lookup_iff]
  constructor
  · intro h
    obtain ⟨⟨k', v'⟩, hm, he⟩ := List.mem_map.mp h
    cases he
    exact hm
  · intro h
    exact List.mem_map.mpr ⟨⟨k, v⟩, h, rfl⟩

theorem UnorderedMap.nodup_pairs {κ ν : Type} (m : UnorderedMap κ ν) :
    (m.pairs.map Prod.fst).Nodup := by
  rw [pairs, List.map_map]
  exact m.nodupKeys

abbrev AesKey := Octets 32

structure Session where
  id : UInt64
  authenticated : Bool := false
  hasAesKey : Bool := false
  aesKey : AesKey := Octets.ofBytes 32 []
  userIdentifier : String := ""
  deriving DecidableEq

namespace Session

def setAuthenticated (s : Session) (state : Bool) (userIdentifier : String) : Session :=
  { s with authenticated := state, userIdentifier := userIdentifier }

def setAesKey (s : Session) (key : AesKey) : Session :=
  { s with aesKey := key, hasAesKey := true }

@[simp] theorem setAesKey_id (s : Session) (k : AesKey) : (s.setAesKey k).id = s.id := rfl

end Session

abbrev InMemorySessionStore := UnorderedMap UInt64 Session

namespace InMemorySessionStore

/-- The copy handed out, and the store with the default record inserted if there was none. -/
def getOrCreate (store : InMemorySessionStore) (sessionId : UInt64) :
    Session × InMemorySessionStore :=
  match store.lookup sessionId with
  | some session => (session, store)
  | none => ({ id := sessionId }, store.insert sessionId { id := sessionId })

def save (store : InMemorySessionStore) (session : Session) : InMemorySessionStore :=
  store.insert session.id session

theorem lookup_getOrCreate_self (store : InMemorySessionStore) (k : UInt64) :
    (store.getOrCreate k).2.lookup k = some (store.getOrCreate k).1 := by
  unfold getOrCreate
  cases h : store.lookup k with
  | some session => exact h
  | none => exact AList.lookup_insert store

theorem lookup_getOrCreate_ne (store : InMemorySessionStore) {k k' : UInt64} (h : k' ≠ k) :
    (store.getOrCreate k).2.lookup k' = store.lookup k' := by
  unfold getOrCreate
  cases store.lookup k with
  | some session => rfl
  | none => exact AList.lookup_insert_ne h

theorem lookup_getOrCreate_of_some (store : InMemorySessionStore) (k : UInt64) {k' : UInt64}
    {r : Session} (h : store.lookup k' = some r) :
    (store.getOrCreate k).2.lookup k' = some r := by
  by_cases hk : k' = k
  · subst hk
    simp [getOrCreate, h]
  · rw [lookup_getOrCreate_ne store hk, h]

theorem getOrCreate_of_some {store : InMemorySessionStore} {k : UInt64} {r : Session}
    (h : store.lookup k = some r) : (store.getOrCreate k).1 = r := by
  simp [getOrCreate, h]

theorem getOrCreate_of_none {store : InMemorySessionStore} {k : UInt64}
    (h : store.lookup k = none) : (store.getOrCreate k).1 = { id := k } := by
  simp [getOrCreate, h]

@[simp] theorem lookup_save_self (store : InMemorySessionStore) (s : Session) :
    (store.save s).lookup s.id = some s :=
  AList.lookup_insert store

theorem lookup_save_ne (store : InMemorySessionStore) (s : Session) {k : UInt64}
    (h : k ≠ s.id) : (store.save s).lookup k = store.lookup k :=
  AList.lookup_insert_ne h

end InMemorySessionStore

end Servd
