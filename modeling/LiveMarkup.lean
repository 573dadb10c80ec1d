import LiveMarkup.Command
import LiveMarkup.Component
import LiveMarkup.CustomElement
import LiveMarkup.Decimal.Binary
import LiveMarkup.Decimal.Numeral
import LiveMarkup.Decimal.Shortest
import LiveMarkup.Dict
import LiveMarkup.Document
import LiveMarkup.Expr.Basic
import LiveMarkup.Expr.Parser
import LiveMarkup.Expr.Token
import LiveMarkup.Fault
import LiveMarkup.Handler
import LiveMarkup.Instance
import LiveMarkup.Interpolation
import LiveMarkup.Main
import LiveMarkup.Markup.Piece
import LiveMarkup.Markup.Source
import LiveMarkup.Page.Basic
import LiveMarkup.Page.Build
import LiveMarkup.Page.Host
import LiveMarkup.Page.Script
import LiveMarkup.Page.Write
import LiveMarkup.ParseError
import LiveMarkup.Proofs.Act
import LiveMarkup.Proofs.AdoptedRoot
import LiveMarkup.Proofs.AppendOrder
import LiveMarkup.Proofs.AttachPoints
import LiveMarkup.Proofs.Bubbling
import LiveMarkup.Proofs.BuildErrors
import LiveMarkup.Proofs.BuildRenders
import LiveMarkup.Proofs.BuildRun
import LiveMarkup.Proofs.BusyElements
import LiveMarkup.Proofs.CacheMoments
import LiveMarkup.Proofs.CacheSharing
import LiveMarkup.Proofs.Changes
import LiveMarkup.Proofs.CoveringHosts
import LiveMarkup.Proofs.DeclaredAttributes
import LiveMarkup.Proofs.Delivery
import LiveMarkup.Proofs.Dependencies
import LiveMarkup.Proofs.Dict
import LiveMarkup.Proofs.DisjointRefresh
import LiveMarkup.Proofs.Exec
import LiveMarkup.Proofs.ExposedNodes
import LiveMarkup.Proofs.FirstFlaw
import LiveMarkup.Proofs.Flaws
import LiveMarkup.Proofs.FlushOrder
import LiveMarkup.Proofs.Forest
import LiveMarkup.Proofs.FreshView
import LiveMarkup.Proofs.Grafts
import LiveMarkup.Proofs.HandlerSources
import LiveMarkup.Proofs.HeldWrites
import LiveMarkup.Proofs.HostCalls
import LiveMarkup.Proofs.HostedPage
import LiveMarkup.Proofs.HostedWidget
import LiveMarkup.Proofs.InnerBuild
import LiveMarkup.Proofs.InnerDelivery
import LiveMarkup.Proofs.InnerView
import LiveMarkup.Proofs.InterpolatedText
import LiveMarkup.Proofs.IsolatedSteps
import LiveMarkup.Proofs.Language
import LiveMarkup.Proofs.Layout
import LiveMarkup.Proofs.LeafCreation
import LiveMarkup.Proofs.LeafWidget
import LiveMarkup.Proofs.Leftovers
import LiveMarkup.Proofs.Links
import LiveMarkup.Proofs.LivePage
import LiveMarkup.Proofs.MarkupPieces
import LiveMarkup.Proofs.MarkupPrinting
import LiveMarkup.Proofs.Memory
import LiveMarkup.Proofs.MergedRefreshes
import LiveMarkup.Proofs.MirroredSteps
import LiveMarkup.Proofs.Moments
import LiveMarkup.Proofs.Moves
import LiveMarkup.Proofs.NestedBuild
import LiveMarkup.Proofs.NestedCreation
import LiveMarkup.Proofs.NestedFlush
import LiveMarkup.Proofs.NestedGrowth
import LiveMarkup.Proofs.NestedPage
import LiveMarkup.Proofs.NestedRendering
import LiveMarkup.Proofs.NestingDepth
import LiveMarkup.Proofs.OrderedForest
import LiveMarkup.Proofs.OwnWrites
import LiveMarkup.Proofs.PageState
import LiveMarkup.Proofs.ParseMarkup
import LiveMarkup.Proofs.ParsePrinted
import LiveMarkup.Proofs.PendingWidgets
import LiveMarkup.Proofs.Places
import LiveMarkup.Proofs.PlainPage
import LiveMarkup.Proofs.PlanRun
import LiveMarkup.Proofs.PlannedWrites
import LiveMarkup.Proofs.Planning
import LiveMarkup.Proofs.Preorder
import LiveMarkup.Proofs.Printing
import LiveMarkup.Proofs.PropertyReads
import LiveMarkup.Proofs.QuietScripts
import LiveMarkup.Proofs.ReachedPage
import LiveMarkup.Proofs.ReadableMarkup
import LiveMarkup.Proofs.Rebuild
import LiveMarkup.Proofs.ReflectedProperties
import LiveMarkup.Proofs.RefreshFrame
import LiveMarkup.Proofs.Regions
import LiveMarkup.Proofs.Rendering
import LiveMarkup.Proofs.RepeatedAttributes
import LiveMarkup.Proofs.Resolution
import LiveMarkup.Proofs.ResolutionHistory
import LiveMarkup.Proofs.SchemaTargets
import LiveMarkup.Proofs.ScriptFrame
import LiveMarkup.Proofs.ScriptMoments
import LiveMarkup.Proofs.Shape
import LiveMarkup.Proofs.Shown
import LiveMarkup.Proofs.SingleRound
import LiveMarkup.Proofs.SlotDiscipline
import LiveMarkup.Proofs.SlotOrder
import LiveMarkup.Proofs.Slots
import LiveMarkup.Proofs.SparedComponent
import LiveMarkup.Proofs.Spelling
import LiveMarkup.Proofs.SuppliedWidgets
import LiveMarkup.Proofs.TakenChanges
import LiveMarkup.Proofs.TargetWrites
import LiveMarkup.Proofs.Targets
import LiveMarkup.Proofs.TemplateSpecs
import LiveMarkup.Proofs.TextCuts
import LiveMarkup.Proofs.TextPlaces
import LiveMarkup.Proofs.UnfoldedTemplate
import LiveMarkup.Proofs.View
import LiveMarkup.Proofs.WaitingWrites
import LiveMarkup.Proofs.WidgetCreation
import LiveMarkup.Proofs.WidgetMoves
import LiveMarkup.Proofs.Widgets
import LiveMarkup.PropertyMap
import LiveMarkup.Schema
import LiveMarkup.Script
import LiveMarkup.Template.Basic
import LiveMarkup.Template.Cache
import LiveMarkup.Template.Compile
import LiveMarkup.Template.Node
import LiveMarkup.Template.Op
import LiveMarkup.Template.Plan
import LiveMarkup.Template.Reader
import LiveMarkup.Text.Blank
import LiveMarkup.Text.Quoted
import LiveMarkup.Text.UpperCase
import LiveMarkup.Text.Visible
import LiveMarkup.Tree
import LiveMarkup.Value
import LiveMarkup.ValueSpec
