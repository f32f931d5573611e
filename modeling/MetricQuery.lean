import MetricQuery.Draft.Catalogue
import MetricQuery.Draft.Workbench
import MetricQuery.Main
import MetricQuery.Proofs.DecimalText
import MetricQuery.Proofs.DraftRuns
import MetricQuery.Proofs.GroupKeyword
import MetricQuery.Proofs.NearestDouble
import MetricQuery.Proofs.NewNodes
import MetricQuery.Proofs.Nodes
import MetricQuery.Proofs.Scanning
import MetricQuery.Proofs.ShortestDecimal
import MetricQuery.Proofs.QueryReader
import MetricQuery.Proofs.NormalForm
import MetricQuery.Proofs.QueryLexing
import MetricQuery.Proofs.QueryForms
import MetricQuery.Proofs.PrecedenceReading
import MetricQuery.Proofs.QueryPrimaries
import MetricQuery.Proofs.RenderRead
import MetricQuery.Proofs.LegibleTrees
import MetricQuery.Proofs.JsonScalars
import MetricQuery.Proofs.JsonText
import MetricQuery.Proofs.DecodedTrees
import MetricQuery.Proofs.StoredTrees
import MetricQuery.Proofs.NormalText
import MetricQuery.Proofs.BracketsAndQuotes
import MetricQuery.Proofs.NeededParens
import MetricQuery.Proofs.FieldTables
import MetricQuery.Proofs.MemberOrder
import MetricQuery.Proofs.NodeDecoding
import MetricQuery.Proofs.Layouts
import MetricQuery.Proofs.JsonReading
import MetricQuery.Proofs.LayoutTexts
import MetricQuery.Proofs.RoundingErrors
import MetricQuery.Proofs.ScaledDecimals
import MetricQuery.Proofs.JsonNumbers
import MetricQuery.Proofs.RestoredTrees
import MetricQuery.Proofs.CutTexts
import MetricQuery.Proofs.RereadTrees
import MetricQuery.Proofs.SettingsLayers
import MetricQuery.Proofs.ArgumentReading
import MetricQuery.Proofs.LeadingOption
import MetricQuery.Proofs.DefaultSettings
import MetricQuery.Proofs.MatcherArguments
import MetricQuery.Proofs.RunEffects
import MetricQuery.Proofs.NearestEven
import MetricQuery.Proofs.ShortestNumerals
import MetricQuery.Proofs.TomlLines
import MetricQuery.Proofs.FirstViolation
import MetricQuery.Proofs.FormatNames
import MetricQuery.Proofs.LastWrites
