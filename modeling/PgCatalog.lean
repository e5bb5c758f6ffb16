import PgCatalog.Library.Run
import PgCatalog.Library.Allocator
import PgCatalog.Library.Datum
import PgCatalog.Library.Union
import PgCatalog.Library.Text
import PgCatalog.Library.Fallible
import PgCatalog.Library.Reparse
import PgCatalog.Registry.Registry
import PgCatalog.Registry.Redb
import PgCatalog.Registry.Equivalence
import PgCatalog.Registry.Ledger
import PgCatalog.Registry.Lawful
import PgCatalog.Registry.Invariant
import PgCatalog.Catalog.Defs
import PgCatalog.Catalog.Declared
import PgCatalog.Catalog.Described
import PgCatalog.Catalog.Loops
import PgCatalog.Catalog.Shape
import PgCatalog.Catalog.Accepted
import PgCatalog.Catalog.Rows
import PgCatalog.Catalog.Tables
import PgCatalog.Catalog.Keys
import PgCatalog.Catalog.Servable
import PgCatalog.Catalog.Surveyed
import PgCatalog.Catalog.Integrity
import PgCatalog.Catalog.Arrow
import PgCatalog.Catalog.Scan
import PgCatalog.Catalog.Typed
import PgCatalog.Catalog.Merge
import PgCatalog.Catalog.Combined
import PgCatalog.Sql.Ast
import PgCatalog.Sql.Visit
import PgCatalog.Sql.Statement
import PgCatalog.ScalarToCte.Correlation
import PgCatalog.ScalarToCte.Comparison
import PgCatalog.ScalarToCte.Grouping
import PgCatalog.Sql.Walk
import PgCatalog.Sql.Mentions
import PgCatalog.ScalarToCte.Qualify
import PgCatalog.ScalarToCte.Lift
import PgCatalog.ScalarToCte.Rewriter
import PgCatalog.ScalarToCte.Shadowing
import PgCatalog.ScalarToCte.Ungrouped
import PgCatalog.ScalarToCte.Scope
import PgCatalog.ScalarToCte.Tables
import PgCatalog.ScalarToCte.Remaining
import PgCatalog.ScalarToCte.Exposed
import PgCatalog.ScalarToCte.LiftedScope
import PgCatalog.Router.Resolve
import PgCatalog.Router.Qualify
import PgCatalog.Router.Agreement
import PgCatalog.Router.Scoping
import PgCatalog.Router.Detect
import PgCatalog.Router.Coverage
import PgCatalog.Server.SetAgreement
import PgCatalog.Server.SearchPath
import PgCatalog.Library.Calendar
import PgCatalog.Server.RowTruth
import PgCatalog.Library.Repeats
import PgCatalog.UserFunctions.SearchPathSchemas
import PgCatalog.Server.Readback
import PgCatalog.Server.Statements
import PgCatalog.Server.Parameters
import PgCatalog.Library.Quoting
import PgCatalog.UserFunctions.CatalogNames
import PgCatalog.Session.Passes
import PgCatalog.Session.Replan
import PgCatalog.CleanDuplicateColumns.Alias
import PgCatalog.CleanDuplicateColumns.Disambiguate
import PgCatalog.CleanDuplicateColumns.Restore
import PgCatalog.Semantics.Naturals
import PgCatalog.Semantics.Enclosing
import PgCatalog.Replace.ExistsToCount
import PgCatalog.Replace.BooleanScalar
import PgCatalog.Replace.LimitOne
import PgCatalog.Session.ViewCreation
import PgCatalog.Session.ViewLoop
import PgCatalog.Sql.Queries
import PgCatalog.Replace.OrderByPositions
import PgCatalog.Library.ByteOffsets
import PgCatalog.Semantics.Grouping
import PgCatalog.Replace.GroupByAny
import PgCatalog.Library.Multiplicity
import PgCatalog.Semantics.Joins
import PgCatalog.Replace.ArrayIteration
import PgCatalog.Replace.LateralAggregate
import PgCatalog.DbTable.InsertInto
import PgCatalog.Session.RowBatch
import PgCatalog.Session.IpcArtifact
import PgCatalog.UserFunctions.IndexLookup
import PgCatalog.Library.Positions
import PgCatalog.Session.SystemColumns
import PgCatalog.Library.ArrayText
import PgCatalog.Replace.BraceLiteral
import PgCatalog.UserFunctions.SizePretty
import PgCatalog.UserFunctions.ArrayCollector
import PgCatalog.LogicalPlanRules.StripPgGetOne
import PgCatalog.UserFunctions.Format
import PgCatalog.Library.Joined
import PgCatalog.UserFunctions.ArrayToString
import PgCatalog.Server.TimestampText
import PgCatalog.UserFunctions.TypeModifiers
import PgCatalog.UserFunctions.TypmodDecoding
import PgCatalog.Library.Separated
import PgCatalog.UserFunctions.DescribeObject
import PgCatalog.UserFunctions.DescribedObjects
import PgCatalog.Library.Reader
import PgCatalog.Library.YamlPlain
import PgCatalog.Library.YamlQuoted
import PgCatalog.Library.YamlTokens
import PgCatalog.Library.YamlTree
import PgCatalog.Server.CaptureFile
import PgCatalog.Server.CaptureReadback
import PgCatalog.Library.FirstMark
import PgCatalog.UserFunctions.FunctionDefinition
import PgCatalog.UserFunctions.CreateFunction
import PgCatalog.UserFunctions.CreateFunctionText
import PgCatalog.UserFunctions.CreateFunctionParts
import PgCatalog.UserFunctions.FunctionText
import PgCatalog.UserFunctions.FunctionStatement
import PgCatalog.UserFunctions.FunctionReadback
import PgCatalog.Library.Placing
import PgCatalog.Session.CatalogRegistration
import PgCatalog.Session.EmbeddedCatalog
import PgCatalog.Library.Locations
import PgCatalog.Session.IdentityPass
import PgCatalog.Library.Chain
import PgCatalog.Replace.CastPasses
import PgCatalog.Replace.CastTargets
import PgCatalog.Session.CastPipeline
import PgCatalog.ScalarToCte.Aggregates
import PgCatalog.ScalarToCte.Decorrelated
