import RestQuery.Main
import RestQuery.Query.Step
import RestQuery.Proofs.Relation.Scan
import RestQuery.Proofs.Compile.Faults
import RestQuery.Proofs.Compile.ReadKeys
import RestQuery.Proofs.Compile.ChangedRecord
import RestQuery.Proofs.Compile.Count
import RestQuery.Proofs.Request.QueryString
import RestQuery.Proofs.Request.Url
import RestQuery.Proofs.Json.Literal
import RestQuery.Proofs.Json.TreeText
import RestQuery.Proofs.Json.ValueTree
import RestQuery.Proofs.Json.Decode
import RestQuery.Proofs.Query.Parts
import RestQuery.Proofs.Query.ReadBack
import RestQuery.Proofs.Relation.Composition
import RestQuery.Proofs.Relation.Slack
import RestQuery.Proofs.Compile.Body
import RestQuery.Proofs.Request.JsonForm
import RestQuery.Proofs.CommandLine.FrontEnds
import RestQuery.Proofs.Compile.Names
import RestQuery.Proofs.Compile.OrPrefix
import RestQuery.Proofs.Query.StepOrder
import RestQuery.Proofs.Text.DotSegments
import RestQuery.Proofs.Request.RecordUrl
import RestQuery.Proofs.Relation.Lookup
import RestQuery.Proofs.Compile.Assembled
import RestQuery.Proofs.Compile.Unambiguous
import RestQuery.Proofs.Relation.RecordText
import RestQuery.Proofs.Query.AskedNames
import RestQuery.Proofs.Relation.IdForms
import RestQuery.Proofs.Relation.Marks
import RestQuery.Proofs.Json.ArrayText
import RestQuery.Proofs.Json.Place
import RestQuery.Proofs.Query.ConditionTree
import RestQuery.Proofs.Compile.IntegerLiterals
import RestQuery.Proofs.Compile.RowPages
import RestQuery.Proofs.Compile.CommaLists
import RestQuery.Proofs.Compile.ListValues
import RestQuery.Proofs.Relation.BucketChoice
import RestQuery.Proofs.CommandLine.RelationGrammar
import RestQuery.Proofs.Relation.TargetForms
import RestQuery.Proofs.Compile.UsedParts
