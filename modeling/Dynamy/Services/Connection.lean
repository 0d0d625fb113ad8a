/-!
# Dynamy.Services.Connection — the methods that a wrapper hands on

The methods of `java.sql.Connection` that `TransactionConnectionWrapper` overrides with a call of the plain connection
and nothing else, overloads apart.  An object that is passed, or `null`, is a `Ref`: its identity is all that matters.
-/

namespace Dynamy.Services

/-- A reference to an object, or `null`. -/
structure Ref where
  identity : Nat
  deriving DecidableEq, Repr

/-- A call of such a method; the constructors of overloads are told apart by what the longer ones take. -/
inductive Method
  | abort (executor : Ref)
  | clearWarnings
  | createArrayOf (typeName elements : Ref)
  | createBlob
  | createClob
  | createNClob
  | createSQLXML
  | createStatement
  | createStatementOf (resultSetType resultSetConcurrency : Int)
  | createStatementHolding (resultSetType resultSetConcurrency resultSetHoldability : Int)
  | createStruct (typeName attributes : Ref)
  | getAutoCommit
  | getCatalog
  | getClientInfo
  | getClientInfoProperty (property : Ref)
  | getHoldability
  | getMetaData
  | getTransactionIsolation
  | getTypeMap
  | getWarnings
  | isClosed
  | isReadOnly
  | isValid (timeout : Int)
  | nativeSQL (sql : Ref)
  | prepareCall (sql : Ref)
  | prepareCallOf (sql : Ref) (resultSetType resultSetConcurrency : Int)
  | prepareCallHolding (sql : Ref) (resultSetType resultSetConcurrency resultSetHoldability : Int)
  | prepareStatement (sql : Ref)
  | prepareStatementKeys (sql : Ref) (autoGeneratedKeys : Int)
  | prepareStatementIndexes (sql columnIndexes : Ref)
  | prepareStatementOf (sql : Ref) (resultSetType resultSetConcurrency : Int)
  | prepareStatementHolding (sql : Ref) (resultSetType resultSetConcurrency resultSetHoldability : Int)
  | prepareStatementNames (sql columnNames : Ref)
  | releaseSavepoint (savepoint : Ref)
  | rollbackTo (savepoint : Ref)
  | setCatalog (catalog : Ref)
  | setClientInfo (properties : Ref)
  | setClientInfoNamed (name value : Ref)
  | setHoldability (holdability : Int)
  | setSavepoint
  | setSavepointNamed (name : Ref)
  | setTransactionIsolation (level : Int)
  | setTypeMap (map : Ref)
  | isWrapperFor (iface : Ref)
  | setNetworkTimeout (executor : Ref) (milliseconds : Int)
  | getNetworkTimeout
  | getSchema
  | setSchema (schema : Ref)
  deriving DecidableEq, Repr

/-- The call of `plainConn` in the body of each override. -/
def Method.forwarded : Method → Method
  | .abort executor => .abort executor
  | .clearWarnings => .clearWarnings
  | .createArrayOf typeName elements => .createArrayOf typeName elements
  | .createBlob => .createBlob
  | .createClob => .createClob
  | .createNClob => .createNClob
  | .createSQLXML => .createSQLXML
  | .createStatement => .createStatement
  | .createStatementOf resultSetType resultSetConcurrency => .createStatementOf resultSetType resultSetConcurrency
  | .createStatementHolding resultSetType resultSetConcurrency resultSetHoldability =>
    .createStatementHolding resultSetType resultSetConcurrency resultSetHoldability
  | .createStruct typeName attributes => .createStruct typeName attributes
  | .getAutoCommit => .getAutoCommit
  | .getCatalog => .getCatalog
  | .getClientInfo => .getClientInfo
  | .getClientInfoProperty property => .getClientInfoProperty property
  | .getHoldability => .getHoldability
  | .getMetaData => .getMetaData
  | .getTransactionIsolation => .getTransactionIsolation
  | .getTypeMap => .getTypeMap
  | .getWarnings => .getWarnings
  | .isClosed => .isClosed
  | .isReadOnly => .isReadOnly
  | .isValid timeout => .isValid timeout
  | .nativeSQL sql => .nativeSQL sql
  | .prepareCall sql => .prepareCall sql
  | .prepareCallOf sql resultSetType resultSetConcurrency => .prepareCallOf sql resultSetType resultSetConcurrency
  | .prepareCallHolding sql resultSetType resultSetConcurrency resultSetHoldability =>
    .prepareCallHolding sql resultSetType resultSetConcurrency resultSetHoldability
  | .prepareStatement sql => .prepareStatement sql
  | .prepareStatementKeys sql autoGeneratedKeys => .prepareStatementKeys sql autoGeneratedKeys
  | .prepareStatementIndexes sql columnIndexes => .prepareStatementIndexes sql columnIndexes
  | .prepareStatementOf sql resultSetType resultSetConcurrency =>
    .prepareStatementOf sql resultSetType resultSetConcurrency
  | .prepareStatementHolding sql resultSetType resultSetConcurrency resultSetHoldability =>
    .prepareStatementHolding sql resultSetType resultSetConcurrency resultSetHoldability
  | .prepareStatementNames sql columnNames => .prepareStatementNames sql columnNames
  | .releaseSavepoint savepoint => .releaseSavepoint savepoint
  | .rollbackTo savepoint => .rollbackTo savepoint
  | .setCatalog catalog => .setCatalog catalog
  | .setClientInfo properties => .setClientInfo properties
  | .setClientInfoNamed name value => .setClientInfoNamed name value
  | .setHoldability holdability => .setHoldability holdability
  | .setSavepoint => .setSavepoint
  | .setSavepointNamed name => .setSavepointNamed name
  | .setTransactionIsolation level => .setTransactionIsolation level
  | .setTypeMap map => .setTypeMap map
  | .isWrapperFor iface => .isWrapperFor iface
  | .setNetworkTimeout executor milliseconds => .setNetworkTimeout executor milliseconds
  | .getNetworkTimeout => .getNetworkTimeout
  | .getSchema => .getSchema
  | .setSchema schema => .setSchema schema

/-- **Every override hands on the call it overrides**, overload and arguments unchanged. -/
theorem Method.forwarded_eq (m : Method) : m.forwarded = m := by
  cases m <;> rfl

end Dynamy.Services
