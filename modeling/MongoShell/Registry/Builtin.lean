import MongoShell.Registry

/-!
The methods of the shell that are known, and what becomes of each.
-/

namespace MongoShell

namespace Registry

/-- Methods of a collection that are carried out. -/
def supportedCollectionMethods : List String :=
  ["find", "findOne", "aggregate", "countDocuments", "estimatedDocumentCount", "distinct",
    "insertOne", "insertMany", "updateOne", "updateMany", "replaceOne", "deleteOne", "deleteMany",
    "findOneAndUpdate", "findOneAndReplace", "findOneAndDelete", "createIndex", "dropIndex",
    "dropIndexes", "getIndexes", "drop", "renameCollection"]

/-- Modifiers of a cursor that are carried out. -/
def supportedCursorMethods : List String :=
  ["sort", "limit", "skip", "projection", "hint", "max", "min"]

/-- Methods of the database handle that are carried out. -/
def supportedDatabaseMethods : List String :=
  ["getCollectionNames", "getCollectionInfos", "createCollection", "dropDatabase"]

def bulkHint : String :=
  "bulk operations are not supported; run each insert, update or delete as its own statement"

def changeStreamHint : String :=
  "change streams are not supported"

def iterationHint : String :=
  "interactive cursor iteration is not supported; the full result set is returned at once"

def userHint : String :=
  "user and role management is not supported"

def administrationHint : String :=
  "server administration is not supported"

def encryptionHint : String :=
  "client-side field level encryption is not supported"

/-- Methods that others have taken the place of. -/
def legacyMethods : List (String × Classification) :=
  [("collection:insert", .deprecated "insertOne() or insertMany()"),
    ("collection:update", .deprecated "updateOne() or updateMany()"),
    ("collection:remove", .deprecated "deleteOne() or deleteMany()"),
    ("collection:save", .deprecated "insertOne() or replaceOne() with upsert"),
    ("collection:count", .deprecated "countDocuments() or estimatedDocumentCount()"),
    ("collection:findAndModify",
      .deprecated "findOneAndUpdate(), findOneAndReplace() or findOneAndDelete()"),
    ("collection:mapReduce", .deprecated "aggregate()"),
    ("collection:ensureIndex", .deprecated "createIndex()"),
    ("collection:reIndex", .deprecated "dropIndex() followed by createIndex()"),
    ("collection:copyTo", .deprecated "aggregate() with a $out stage"),
    ("cursor:count", .deprecated "countDocuments()"),
    ("database:eval", .deprecated "aggregate() or application-side logic"),
    ("database:copyDatabase", .deprecated "mongodump and mongorestore"),
    ("database:getLastError", .deprecated "the result of each write operation")]

/-- Collection methods that are planned. -/
def plannedCollectionMethods : List (String × Classification) :=
  [("collection:createIndexes", .planned (some "use createIndex() once per index")),
    ("collection:stats", .planned none),
    ("collection:dataSize", .planned none),
    ("collection:storageSize", .planned none),
    ("collection:totalSize", .planned none),
    ("collection:totalIndexSize", .planned none),
    ("collection:validate", .planned none),
    ("collection:explain", .planned none),
    ("collection:hideIndex", .planned none),
    ("collection:unhideIndex", .planned none),
    ("collection:latencyStats", .planned none),
    ("collection:isCapped", .planned none),
    ("collection:getIndexKeys", .planned (some "use getIndexes()")),
    ("collection:getIndexSpecs", .planned (some "use getIndexes()")),
    ("collection:getPlanCache", .planned none)]

/-- Cursor methods that are planned. -/
def plannedCursorMethods : List (String × Classification) :=
  [("cursor:explain", .planned none),
    ("cursor:collation", .planned none),
    ("cursor:comment", .planned none),
    ("cursor:batchSize", .planned none),
    ("cursor:maxTimeMS", .planned (some "pass maxTimeMS in the find() options document")),
    ("cursor:readConcern", .planned none),
    ("cursor:readPref", .planned none),
    ("cursor:allowDiskUse", .planned none),
    ("cursor:noCursorTimeout", .planned none),
    ("cursor:returnKey", .planned none),
    ("cursor:showRecordId", .planned none),
    ("cursor:pretty", .planned (some "results are already returned as documents")),
    ("cursor:toArray", .planned (some "results are already returned as an array")),
    ("cursor:size", .planned (some "use countDocuments()")),
    ("cursor:tailable", .planned none),
    ("cursor:maxAwaitTimeMS", .planned none)]

/-- Database methods that are planned. -/
def plannedDatabaseMethods : List (String × Classification) :=
  [("database:runCommand", .planned none),
    ("database:adminCommand", .planned none),
    ("database:stats", .planned none),
    ("database:version", .planned none),
    ("database:getName", .planned none),
    ("database:getSiblingDB", .planned (some "switch databases in the connection settings")),
    ("database:createView", .planned none),
    ("database:serverStatus", .planned none),
    ("database:hostInfo", .planned none),
    ("database:listCommands", .planned none),
    ("database:getProfilingStatus", .planned none),
    ("database:getLogComponents", .planned none),
    ("database:serverBuildInfo", .planned none),
    ("database:commandHelp", .planned none),
    ("database:aggregate", .planned (some "run aggregate() on a collection"))]

/-- Methods called where they have no meaning. -/
def misplacedMethods : List (String × Classification) :=
  [("collection:sort", .unsupported (some "sort() is a cursor method; chain it after find()")),
    ("collection:limit", .unsupported (some "limit() is a cursor method; chain it after find()")),
    ("collection:skip", .unsupported (some "skip() is a cursor method; chain it after find()")),
    ("collection:projection",
      .unsupported (some "projection() is a cursor method; chain it after find()")),
    ("collection:hint", .unsupported (some "hint() is a cursor method; chain it after find()")),
    ("collection:max", .unsupported (some "max() is a cursor method; chain it after find()")),
    ("collection:min", .unsupported (some "min() is a cursor method; chain it after find()")),
    ("database:getCollection",
      .unsupported
        (some "call a collection method on it, e.g. db.getCollection(\"name\").find()"))]

/-- Bulk writes. -/
def bulkMethods : List (String × Classification) :=
  [("initializeOrderedBulkOp", .unsupported (some bulkHint)),
    ("initializeUnorderedBulkOp", .unsupported (some bulkHint)),
    ("bulkWrite", .unsupported (some bulkHint))]

/-- Change streams. -/
def changeStreamMethods : List (String × Classification) :=
  [("watch", .unsupported (some changeStreamHint))]

/-- Iteration over a cursor. -/
def iterationMethods : List (String × Classification) :=
  [("cursor:forEach", .unsupported (some iterationHint)),
    ("cursor:map", .unsupported (some iterationHint)),
    ("cursor:next", .unsupported (some iterationHint)),
    ("cursor:hasNext", .unsupported (some iterationHint)),
    ("cursor:close", .unsupported (some iterationHint)),
    ("cursor:itcount", .unsupported (some iterationHint)),
    ("cursor:objsLeftInBatch", .unsupported (some iterationHint)),
    ("cursor:isExhausted", .unsupported (some iterationHint))]

/-- Users and roles. -/
def userMethods : List (String × Classification) :=
  [("database:createUser", .unsupported (some userHint)),
    ("database:dropUser", .unsupported (some userHint)),
    ("database:updateUser", .unsupported (some userHint)),
    ("database:getUser", .unsupported (some userHint)),
    ("database:getUsers", .unsupported (some userHint)),
    ("database:grantRolesToUser", .unsupported (some userHint)),
    ("database:revokeRolesFromUser", .unsupported (some userHint)),
    ("database:createRole", .unsupported (some userHint)),
    ("database:dropRole", .unsupported (some userHint)),
    ("database:getRole", .unsupported (some userHint)),
    ("database:getRoles", .unsupported (some userHint)),
    ("database:auth", .unsupported (some userHint)),
    ("database:logout", .unsupported (some userHint))]

/-- Replication, sharding and server administration. -/
def administrationMethods : List (String × Classification) :=
  [("database:getReplicationInfo", .unsupported (some administrationHint)),
    ("database:printReplicationInfo", .unsupported (some administrationHint)),
    ("database:printSecondaryReplicationInfo", .unsupported (some administrationHint)),
    ("database:printShardingStatus", .unsupported (some administrationHint)),
    ("database:shutdownServer", .unsupported (some administrationHint)),
    ("database:fsyncLock", .unsupported (some administrationHint)),
    ("database:fsyncUnlock", .unsupported (some administrationHint)),
    ("database:currentOp", .unsupported (some administrationHint)),
    ("database:killOp", .unsupported (some administrationHint)),
    ("database:setProfilingLevel", .unsupported (some administrationHint)),
    ("collection:getShardDistribution", .unsupported (some administrationHint)),
    ("collection:configureQueryAnalyzer", .unsupported (some administrationHint))]

/-- Client-side encryption. -/
def encryptionMethods : List (String × Classification) :=
  [("getKeyVault", .unsupported (some encryptionHint)),
    ("getClientEncryption", .unsupported (some encryptionHint))]

def supportedIn (context : CallContext) (names : List String) : List (String × Classification) :=
  names.map fun name => (scopedKey context name, .supported)

/-- The registry that statements are checked against unless another is given. -/
def builtin : Registry where
  entries :=
    supportedIn .collection supportedCollectionMethods ++ supportedIn .cursor supportedCursorMethods
      ++ supportedIn .database supportedDatabaseMethods
      ++ legacyMethods ++ plannedCollectionMethods ++ plannedCursorMethods ++ plannedDatabaseMethods
      ++ misplacedMethods ++ bulkMethods ++ changeStreamMethods ++ iterationMethods
      ++ userMethods ++ administrationMethods ++ encryptionMethods

end Registry

end MongoShell
